import VsrKv.KeyValue
import VsrKv.Replies

/-!
# Turns of execution along a run

A handler executes in one stretch, if at all: it brings the state to where
execution begins, `execute_commited_ops` makes its turns, and what these
have written is not touched afterwards (`Acts.execution`). Where execution
begins is where it last stopped, except that a replica that leaves
recovery begins again at op 1.

So a replica executes its log in order, without leaving anything out,
whatever messages it gets and in whatever order (`executes_in_order`):
the op after `n` is `n + 1`, or it is op 1 once more, and that takes a
recovery or a restart.
-/

namespace VsrKv

open Replica TransitionSystem
open Event (process receive request)

/-! ## One handled message -/

/-- Execution begins at `s₁` in a replica that was in state `s`. -/
inductive Begins (s s₁ : ReplicaState) : Prop where
  | onward (hop : s₁.lastExecutedOp = s.lastExecutedOp)
      (hmachine : s₁.stateMachine = s.stateMachine)
      (htable : ∀ client, (s₁.clientEntry client).executed = true →
        s₁.clientEntry client = s.clientEntry client)
  | again (hst : s.status = .recovery) (hop : s₁.lastExecutedOp = 0)

/-- What handling `im` executes. An idle handler may answer from the client
table; around a stretch of turns nobody is answered. -/
inductive Execution (s : ReplicaState) (im : InboundMessage) (s' : ReplicaState)
    (effs : List Effect) : Prop where
  | idle (hop : s'.lastExecutedOp = s.lastExecutedOp) (hmachine : s'.stateMachine = s.stateMachine)
      (htable : ∀ client, (s'.clientEntry client).executed = true →
        s'.clientEntry client = s.clientEntry client)
      (hturn : ∀ eff ∈ effs, eff.turn? = none)
      (hreply : ∀ eff ∈ effs, ∀ m, eff.message? = some m → m.header.command = .reply →
        answersCached s im.message = true
          ∧ m = cachedReply im.message (s.clientEntry im.message.header.client).result)
  | stretch (s₁ s₂ : ReplicaState) (before chain after : List Effect)
      (heffs : effs = before ++ chain ++ after) (hbegins : Begins s s₁)
      (hexec : Executed s₁ s₂ chain)
      (hends : ∃ nonce responses,
        s' = { s₂ with recoveryNonce := nonce, recoveryResponses := responses })
      (hst : s'.status = .normal)
      (hother : ∀ eff ∈ before ++ after, eff.turn? = none
        ∧ ∀ m, eff.message? = some m → m.header.command ≠ .reply)

section

variable {env : Env} {im : InboundMessage} {s s₁ s' : ReplicaState} {effs : List Effect}

/-- The tables of two states are the same where they say that something has been
executed. -/
theorem Begins.of_table (hop : s₁.lastExecutedOp = s.lastExecutedOp)
    (hmachine : s₁.stateMachine = s.stateMachine) (htable : s₁.clientTable = s.clientTable) :
    Begins s s₁ :=
  .onward hop hmachine fun client _ => by rw [ReplicaState.clientEntry, htable]; rfl

theorem Acts.execution (h : Acts env s im s' effs) : Execution s im s' effs := by
  -- nothing is executed and nobody is answered
  have hidle : ∀ {s' : ReplicaState} {effs : List Effect},
      s'.lastExecutedOp = s.lastExecutedOp → s'.stateMachine = s.stateMachine →
      (∀ client, (s'.clientEntry client).executed = true →
        s'.clientEntry client = s.clientEntry client) →
      (∀ eff ∈ effs, eff.turn? = none
        ∧ ∀ m, eff.message? = some m → m.header.command ≠ .reply) →
      Execution s im s' effs := by
    intro s' effs hop hmachine htable hquiet
    exact .idle hop hmachine htable (fun eff heff => (hquiet eff heff).1)
      fun eff heff m hm hreply => absurd hreply ((hquiet eff heff).2 m hm)
  have hsame : ∀ {s' : ReplicaState}, s'.clientTable = s.clientTable →
      ∀ client, (s'.clientEntry client).executed = true →
        s'.clientEntry client = s.clientEntry client := by
    intro s' htable client _
    rw [ReplicaState.clientEntry, htable]
    rfl
  -- a stretch of turns, after `before`
  have hrun : ∀ {s₁ s' : ReplicaState} (before : List Effect) {chain : List Effect},
      Begins s s₁ → Executed s₁ s' chain → s₁.status = .normal →
      (∀ eff ∈ before, eff.turn? = none
        ∧ ∀ m, eff.message? = some m → m.header.command ≠ .reply) →
      Execution s im s' (before ++ chain) := by
    intro s₁ s' before chain hbegins hexec hst hbefore
    have hst' : s'.status = .normal := by
      obtain ⟨n, t, m, rfl⟩ := hexec.state
      exact hst
    exact .stretch s₁ s' before chain [] (by simp) hbegins hexec ⟨_, _, rfl⟩ hst'
      (by simpa using hbefore)
  cases h with
  | ignore => exact hidle rfl rfl (hsame rfl) (by simp)
  | pong msg hcmd hmsg =>
      exact hidle rfl rfl (hsame rfl) (by simp [Effect.turn?, Effect.message?, hmsg])
  | old hcmd hst hprimary effs heffs =>
      refine .idle rfl rfl (fun client _ => clientEntry_touched _) ?_ ?_
      · intro eff heff
        rw [(heffs eff heff).2]
        rfl
      · intro eff heff m hm _
        obtain ⟨hnumber, rfl⟩ := heffs eff heff
        cases hm
        exact ⟨by simp [answersCached, hcmd, checkCanProcessRequest, hst, hprimary, hnumber], rfl⟩
  | propose hcmd hst hprimary hnew =>
      refine hidle rfl rfl ?_ (by simp [Effect.turn?, Effect.message?, prepareMessage])
      intro client hexec
      rw [clientEntry_appendEntry_of_executed _ hexec, clientEntry_touched]
  | accept s' effs hcmd hst hprimary hview hop hexec =>
      have hbegins : Begins s (raiseTo (appendEntry s (entryOf s.view im.message ∅))
          im.message.header.commit) :=
        .onward rfl rfl fun client hdone => clientEntry_appendEntry_of_executed _ hdone
      exact hrun [_] hbegins hexec hst (by simp [Effect.turn?, Effect.message?, prepareOkMessage])
  | acknowledge entry s' effs hcmd hst hprimary hview hentry hexec =>
      have hbegins : Begins s (advanced (recordAck s im.message.header.op
          im.message.header.replica entry)) := .of_table rfl rfl rfl
      exact hrun [] hbegins hexec hst (by simp)
  | learn s' effs hcmd hst hprimary hview hexec =>
      have hbegins : Begins s (raiseTo s im.message.header.commit) := .of_table rfl rfl rfl
      exact hrun [] hbegins hexec hst (by simp)
  | join => exact hidle rfl rfl (hsame rfl) (by simp)
  | vote p =>
      exact hidle rfl rfl (hsame rfl) (by simp [Effect.turn?, Effect.message?, doViewChangeMessage])
  | discard => exact hidle rfl rfl (hsame rfl) (by simp)
  | collect s₁ d hd => cases hd <;> exact hidle rfl rfl (hsame rfl) (by simp)
  | startView s₁ d hd hquorum best hbest s' effs hexec =>
      refine hrun [_] (.of_table ?_ ?_ ?_) hexec rfl
        (by simp [Effect.turn?, Effect.message?, startViewMessage])
      all_goals cases hd <;> rfl
  | adopt payload s' effs hcmd hview hst hprimary hpayload hexec =>
      have hst' : s'.status = .normal := by
        obtain ⟨n, t, m, rfl⟩ := hexec.state
        rfl
      have hbegins : Begins s (adoptedState s im.message.header payload.log) :=
        .onward rfl rfl fun client hdone => clientEntry_adoptedState _ _ hdone
      refine .stretch _ s' [] effs _ rfl hbegins hexec ⟨_, _, rfl⟩ hst' ?_
      intro eff heff
      obtain ⟨k, -, rfl⟩ := List.mem_map.mp heff
      exact ⟨rfl, by simp [Effect.message?, prepareOkMessage]⟩
  | respond request =>
      exact hidle rfl rfl (hsame rfl)
        (by simp [Effect.turn?, Effect.message?, recoveryResponseMessage])
  | gather => exact hidle rfl rfl (hsame rfl) (by simp)
  | recover payload hcmd hst hpayload hnonce first rest hresponses hquorum s₂ effs hexec =>
      have hst' : s₂.status = .normal := by
        obtain ⟨n, t, m, rfl⟩ := hexec.state
        rfl
      exact .stretch _ s₂ [] effs [] (by simp) (.again hst rfl) hexec ⟨_, _, rfl⟩ hst' (by simp)

/-- What is executed is in the log, then and afterwards. -/
theorem Execution.logged (h : Execution s im s' effs) {v n : Nat} {e : LogEntry}
    {res : Option Bytes} (hmem : Effect.executed v n e res ∈ effs) : s'.log[n]? = some e := by
  cases h with
  | idle _ _ _ hturn => cases hturn _ hmem
  | stretch s₁ s₂ before chain after heffs hbegins hexec hends hst hother =>
      obtain ⟨nonce, responses, rfl⟩ := hends
      rw [heffs, List.append_assoc, List.mem_append, List.mem_append] at hmem
      rcases hmem with hmem | hmem | hmem
      · cases (hother _ (List.mem_append_left _ hmem)).1
      · obtain ⟨k, t, m, rfl⟩ := hexec.state
        cases hexec.effects _ hmem with
        | executed _ _ _ _ hlog => exact hlog
      · cases (hother _ (List.mem_append_right _ hmem)).1

/-- Whoever is answered during execution is told what has just been executed. -/
theorem Replica.Executed.answers (h : Executed s s' effs) :
    ∀ eff ∈ effs, ∀ m, eff.message? = some m → ∃ v n e,
      Effect.executed v n e (some m.payload) ∈ effs
        ∧ e.key = (m.header.client, m.header.request) := by
  induction h with
  | refl => simp
  | @turn s₁ effs e h hlt hlog replies hreplies ih =>
      intro eff heff m hm
      rcases List.mem_append.mp heff with heff | heff
      · obtain ⟨v, n, e', hmem, hkey⟩ := ih eff heff m hm
        exact ⟨v, n, e', List.mem_append_left _ hmem, hkey⟩
      · rcases List.mem_cons.mp heff with rfl | heff
        · cases hm
        · obtain ⟨conn, res, hres, rfl⟩ := hreplies eff heff
          cases hm
          refine ⟨s₁.view, s₁.lastExecutedOp + 1, e, List.mem_append_right _ ?_, rfl⟩
          rw [hres]
          exact List.mem_cons_self

/-- The turn that executed an op, and the turns before it. -/
theorem Replica.Executed.exists_turn (h : Executed s s' effs) {v n : Nat} {e : LogEntry}
    {res : Option Bytes} (hmem : Effect.executed v n e res ∈ effs) :
    ∃ s₁ effs₁, Executed s s₁ effs₁ ∧ n = s₁.lastExecutedOp + 1 ∧ n ≤ s₁.commit
      ∧ s₁.log[n]? = some e ∧ res = turnResult s₁ e ∧ n ≤ s'.lastExecutedOp := by
  induction h with
  | refl => cases hmem
  | @turn s₁ effs e₁ h hlt hlog replies hreplies ih =>
      rw [turnState_lastExecutedOp]
      rcases List.mem_append.mp hmem with hmem | hmem
      · obtain ⟨s₂, effs₂, h₂, hn, hcommit, hlog₂, hres, hle⟩ := ih hmem
        exact ⟨s₂, effs₂, h₂, hn, hcommit, hlog₂, hres, by omega⟩
      · rcases List.mem_cons.mp hmem with heq | hmem
        · cases heq
          exact ⟨s₁, effs, h, rfl, hlt, hlog, rfl, Nat.le_refl _⟩
        · obtain ⟨conn, res', -, heq⟩ := hreplies _ hmem
          cases heq

end

/-! ## Climbing a log -/

/-- Each number follows the one before it, or begins again at 1. -/
def Climbs (ops : List Nat) : Prop := (0 :: ops).IsChain fun a b => b = a + 1 ∨ b = 1

theorem Climbs.concat {ops : List Nat} {n : Nat} (h : Climbs ops)
    (hn : n = 1 ∨ ∃ k, ops.getLast? = some k ∧ n = k + 1) : Climbs (ops ++ [n]) := by
  rw [Climbs, ← List.cons_append, List.isChain_append]
  refine ⟨h, List.isChain_singleton _, ?_⟩
  intro a ha b hb
  obtain rfl : n = b := by simpa using hb
  rcases hn with rfl | ⟨k, hk, rfl⟩
  · exact Or.inr rfl
  · rw [List.getLast?_cons, hk] at ha
    obtain rfl : k = a := by simpa using ha
    exact Or.inl rfl

/-- Who has got to `n` has been at every number below it. -/
theorem Climbs.mem_of_le {ops : List Nat} (h : Climbs ops) {n m : Nat} (hn : n ∈ ops)
    (hm : 1 ≤ m) (hle : m ≤ n) : m ∈ ops := by
  induction ops using List.reverseRecOn generalizing n with
  | nil => cases hn
  | append_singleton ops k ih =>
      rw [Climbs, ← List.cons_append, List.isChain_append] at h
      obtain ⟨hops, -, hlast⟩ := h
      rcases List.mem_append.mp hn with hn | hn
      · exact List.mem_append_left _ (ih hops hn hle)
      · obtain rfl : n = k := by simpa using hn
        rcases Nat.lt_or_ge m n with hlt | hge
        · -- `n` came after its predecessor, which is not 0
          refine List.mem_append_left _ ?_
          have hpred := hlast _ (List.getLast?_eq_some_getLast (List.cons_ne_nil 0 ops)) n rfl
          have hmem := List.getLast_mem (List.cons_ne_nil 0 ops)
          rcases hpred with hpred | hone
          · rcases List.mem_cons.mp hmem with hzero | hmem
            · omega
            · exact ih hops hmem (by omega)
          · omega
        · obtain rfl : m = n := by omega
          exact List.mem_append_right _ hn

/-! ## Along a run -/

/-- The number of the op that an effect says was passed. -/
def Effect.op? (eff : Effect) : Option Nat := eff.turn?.map (·.1)

section

variable {past effs : List Effect} {s s' : ReplicaState} {im : InboundMessage}

theorem filterMap_op?_of_idle (h : ∀ eff ∈ effs, eff.turn? = none) :
    effs.filterMap Effect.op? = [] :=
  List.filterMap_eq_nil_iff.mpr fun eff heff => by rw [Effect.op?, h eff heff]; rfl

/-- The ops passed so far, of which the last is the one the state names. -/
structure InOrder (ops : List Nat) (s : ReplicaState) : Prop where
  climbs : Climbs ops
  last : s.lastExecutedOp = 0 ∨ ops.getLast? = some s.lastExecutedOp

theorem Replica.Executed.inOrder (hexec : Executed s s' effs) {ops : List Nat}
    (h : InOrder ops s) :
    InOrder (ops ++ effs.filterMap Effect.op?) s'
      ∧ effs.filterMap Effect.op?
        = List.range' (s.lastExecutedOp + 1) (s'.lastExecutedOp - s.lastExecutedOp)
      ∧ s.lastExecutedOp ≤ s'.lastExecutedOp := by
  induction hexec with
  | refl => simpa using h
  | @turn s₁ effs e hexec hlt hlog replies hreplies ih =>
      obtain ⟨⟨hclimbs, hlast⟩, hrange, hle⟩ := ih
      have hnone : replies.filterMap Effect.op? = [] := by
        refine filterMap_op?_of_idle fun eff heff => ?_
        obtain ⟨conn, res, -, rfl⟩ := hreplies eff heff
        rfl
      have hops : (effs ++ (.executed s₁.view (s₁.lastExecutedOp + 1) e (turnResult s₁ e)
          :: replies)).filterMap Effect.op?
            = effs.filterMap Effect.op? ++ [s₁.lastExecutedOp + 1] := by
        rw [List.filterMap_append, List.filterMap_cons, hnone]
        rfl
      rw [hops, turnState_lastExecutedOp, ← List.append_assoc]
      refine ⟨⟨hclimbs.concat ?_, Or.inr (by simp)⟩, ?_, by omega⟩
      · rcases hlast with hzero | hlast
        · exact Or.inl (by rw [hzero])
        · exact Or.inr ⟨_, hlast, rfl⟩
      · have hlen : s₁.lastExecutedOp + 1 - s.lastExecutedOp
            = s₁.lastExecutedOp - s.lastExecutedOp + 1 := by omega
        have hnext : s.lastExecutedOp + 1 + (s₁.lastExecutedOp - s.lastExecutedOp)
            = s₁.lastExecutedOp + 1 := by omega
        rw [hrange, hlen, List.range'_concat, Nat.one_mul, hnext]

/-- What handling a message adds to the ops passed. -/
theorem Execution.inOrder (hexec : Execution s im s' effs) {ops : List Nat} (h : InOrder ops s) :
    InOrder (ops ++ effs.filterMap Effect.op?) s'
      ∧ (s.status ≠ .recovery → effs.filterMap Effect.op?
          = List.range' (s.lastExecutedOp + 1) (s'.lastExecutedOp - s.lastExecutedOp)
        ∧ s.lastExecutedOp ≤ s'.lastExecutedOp) := by
  cases hexec with
  | idle hop _ _ hturn =>
      rw [filterMap_op?_of_idle hturn, List.append_nil, hop]
      exact ⟨⟨h.climbs, hop ▸ h.last⟩, fun _ => by simp⟩
  | stretch s₁ s₂ before chain after heffs hbegins hexec hends hst hother =>
      obtain ⟨nonce, responses, rfl⟩ := hends
      have hbefore : before.filterMap Effect.op? = [] := filterMap_op?_of_idle fun eff heff =>
        (hother eff (List.mem_append_left _ heff)).1
      have hafter : after.filterMap Effect.op? = [] := filterMap_op?_of_idle fun eff heff =>
        (hother eff (List.mem_append_right _ heff)).1
      rw [heffs, List.filterMap_append, List.filterMap_append, hbefore, hafter, List.nil_append,
        List.append_nil]
      cases hbegins with
      | onward hop =>
          obtain ⟨horder, hrange⟩ :=
            hexec.inOrder (show InOrder ops _ from ⟨h.climbs, hop ▸ h.last⟩)
          rw [hop] at hrange
          exact ⟨⟨horder.climbs, horder.last⟩, fun _ => hrange⟩
      | again hrec hop =>
          obtain ⟨horder, -⟩ := hexec.inOrder (show InOrder ops _ from ⟨h.climbs, Or.inl hop⟩)
          exact ⟨⟨horder.climbs, horder.last⟩, fun hnot => absurd hrec hnot⟩

end

namespace Cluster

variable {c c' : Cluster} {ev : Event} {i : Nat}

/-- The numbers of the ops `i` has passed, in order. -/
def opsPassed (c : Cluster) (i : Nat) : List Nat := (c.history i).filterMap Effect.op?

/-- The step takes nothing away that `i` has executed. -/
def KeepsProgress (i : Nat) (c : Cluster) (ev : Event) (_ : Cluster) : Prop :=
  ev.restarted? ≠ some i ∧ (c.state i).status ≠ .recovery

instance (i : Nat) (c : Cluster) (ev : Event) (c' : Cluster) :
    Decidable (KeepsProgress i c ev c') := inferInstanceAs (Decidable (_ ∧ _))

/-- What a step adds to the ops that `i` has passed. -/
theorem Moves.inOrder (h : Moves c ev c') (horder : InOrder (c.opsPassed i) (c.state i)) :
    InOrder (c'.opsPassed i) (c'.state i)
      ∧ (KeepsProgress i c ev c' → ∃ k, c'.opsPassed i
          = c.opsPassed i ++ List.range' ((c.state i).lastExecutedOp + 1) k
        ∧ (c'.state i).lastExecutedOp = (c.state i).lastExecutedOp + k) := by
  -- where nothing is executed
  have hsame : c'.opsPassed i = c.opsPassed i →
      (c'.state i).lastExecutedOp = (c.state i).lastExecutedOp →
      InOrder (c'.opsPassed i) (c'.state i)
        ∧ (KeepsProgress i c ev c' → ∃ k, c'.opsPassed i
            = c.opsPassed i ++ List.range' ((c.state i).lastExecutedOp + 1) k
          ∧ (c'.state i).lastExecutedOp = (c.state i).lastExecutedOp + k) := by
    intro hops hlast
    rw [hops, hlast]
    exact ⟨⟨horder.climbs, hlast ▸ horder.last⟩, fun _ => ⟨0, by simp⟩⟩
  have hlocal : ∀ {j : Nat} {s' : ReplicaState} {q' : List InboundMessage} {eff : Effect},
      Local c c' j s' q' [eff] → eff.turn? = none →
      s'.lastExecutedOp = (c.state j).lastExecutedOp →
      c'.opsPassed i = c.opsPassed i
        ∧ (c'.state i).lastExecutedOp = (c.state i).lastExecutedOp := by
    intro j s' q' eff hl hturn hop
    have hnone : [eff].filterMap Effect.op? = [] := filterMap_op?_of_idle (by simpa using hturn)
    rw [opsPassed, hl.history]
    by_cases hij : i = j
    · subst hij
      rw [if_pos rfl, List.filterMap_append, hl.state_self, hop, hnone, List.append_nil]
      exact ⟨rfl, rfl⟩
    · rw [if_neg hij, hl.state_ne i hij]
      exact ⟨rfl, rfl⟩
  cases h with
  | quiet _ hstate htrace =>
      exact hsame (by rw [opsPassed, history_congr htrace]; rfl) (by rw [hstate])
  | duplicate _ _ _ hstate htrace =>
      exact hsame (by rw [opsPassed, history_congr htrace]; rfl) (by rw [hstate])
  | enterView j s' hst hs' hl =>
      obtain ⟨hops, hlast⟩ := hlocal hl rfl (by rw [hs']; rfl)
      exact hsame hops hlast
  | enterRecovery j stuck rest nonce s' hst hqueue hcan haction hs' hl =>
      obtain ⟨hops, hlast⟩ := hlocal hl rfl (by rw [hs'])
      exact hsame hops hlast
  | heartbeat j hst hprimary hl =>
      obtain ⟨hops, hlast⟩ := hlocal hl rfl rfl
      exact hsame hops hlast
  | restart j hev hlt hsize hself hne htrace =>
      have hops : c'.opsPassed i = c.opsPassed i := by rw [opsPassed, history_congr htrace]; rfl
      by_cases hij : i = j
      · subst hij
        rw [hops, hself]
        exact ⟨⟨horder.climbs, Or.inl rfl⟩, fun hkeep => absurd (by rw [hev]; rfl) hkeep.1⟩
      · exact hsame hops (by rw [hne i hij])
  | act j env hev im rest s' effs hqueue hstale hacts hl =>
      by_cases hij : i = j
      · subst hij
        obtain ⟨horder', hrange⟩ := hacts.execution.inOrder horder
        rw [opsPassed, hl.history, if_pos rfl, List.filterMap_append, hl.state_self]
        refine ⟨horder', fun hkeep => ⟨s'.lastExecutedOp - (c.state i).lastExecutedOp, ?_⟩⟩
        obtain ⟨heq, hle⟩ := hrange hkeep.2
        exact ⟨by rw [heq]; rfl, by omega⟩
      · refine hsame ?_ (by rw [hl.state_ne i hij])
        rw [opsPassed, hl.history, if_neg hij]
        rfl

/-- What a replica does in a step it does by handling a message, or it is a
broadcast that answers nobody. -/
theorem Moves.mem_history (h : Moves c ev c') {eff : Effect} (hmem : eff ∈ c'.history i) :
    eff ∈ c.history i
      ∨ (∃ m, eff = .broadcast m ∧ m.header.command ≠ .reply)
      ∨ ∃ env im rest effs, ev = .tick i env ∧ c.queue i = im :: rest
        ∧ Execution (c.state i) im (c'.state i) effs ∧ c'.history i = c.history i ++ effs
        ∧ eff ∈ effs := by
  have hlocal : ∀ {j : Nat} {s' : ReplicaState} {q' : List InboundMessage} {m : VsrMessage},
      Local c c' j s' q' [.broadcast m] → m.header.command ≠ .reply →
      eff ∈ c.history i ∨ ∃ m, eff = .broadcast m ∧ m.header.command ≠ .reply := by
    intro j s' q' m hl hm
    rw [hl.history] at hmem
    split at hmem
    · rcases List.mem_append.mp hmem with hmem | hmem
      · exact Or.inl hmem
      · exact Or.inr ⟨m, List.mem_singleton.mp hmem, hm⟩
    · exact Or.inl hmem
  rw [← or_assoc]
  cases h with
  | quiet _ _ htrace => exact Or.inl (Or.inl (history_congr htrace i ▸ hmem))
  | duplicate _ _ _ _ htrace => exact Or.inl (Or.inl (history_congr htrace i ▸ hmem))
  | restart _ _ _ _ _ _ htrace => exact Or.inl (Or.inl (history_congr htrace i ▸ hmem))
  | enterView j s' hst hs' hl => exact Or.inl (hlocal hl (by simp [startViewChangeMessage]))
  | enterRecovery j stuck rest nonce s' hst hqueue hcan haction hs' hl =>
      exact Or.inl (hlocal hl (by simp [recoveryMessage]))
  | heartbeat j hst hprimary hl => exact Or.inl (hlocal hl (by simp [commitMessage]))
  | act j env hev im rest s' effs hqueue hstale hacts hl =>
      have hhistory := hl.history i
      by_cases hij : i = j
      · subst hij
        rw [if_pos rfl] at hhistory
        rw [hhistory] at hmem
        rcases List.mem_append.mp hmem with hmem | hmem
        · exact Or.inl (Or.inl hmem)
        · refine Or.inr ⟨env, im, rest, effs, hev, hqueue, ?_, hhistory, hmem⟩
          rw [hl.state_self]
          exact hacts.execution
      · rw [hhistory, if_neg hij] at hmem
        exact Or.inl (Or.inl hmem)

theorem inOrder_run {ok : Cluster → Event → Cluster → Prop} {n : Nat} (run : Run ok (init n) c)
    (i : Nat) : InOrder (c.opsPassed i) (c.state i) := by
  refine run.invariant (I := fun c => InOrder (c.opsPassed i) (c.state i)) ?_
    fun u ev v run hstep _ h => ((step_moves (static_run run) hstep).inOrder h).1
  exact ⟨List.isChain_singleton _, Or.inl rfl⟩

end Cluster

/-- A replica executes op after op, or begins again at op 1. One that has never
restarted or recovered has executed 1 to `last_executed_op_`, each once. -/
theorem executes_in_order {ok : Cluster → Event → Cluster → Prop} {n : Nat} {c : Cluster}
    (run : Cluster.Run ok (Cluster.init n) c) (i : Nat) :
    Climbs (c.opsPassed i)
      ∧ ((∀ c ev c', ok c ev c' → Cluster.KeepsProgress i c ev c') →
        c.opsPassed i = List.range' 1 (c.state i).lastExecutedOp) := by
  refine ⟨(Cluster.inOrder_run run i).climbs, fun hok => ?_⟩
  refine run.invariant (I := fun c => c.opsPassed i = List.range' 1 (c.state i).lastExecutedOp)
    rfl ?_
  intro u ev v run hstep hcond h
  obtain ⟨k, hops, hlast⟩ := ((Cluster.step_moves (Cluster.static_run run) hstep).inOrder
    (Cluster.inOrder_run run i)).2 (hok _ _ _ hcond)
  rw [hops, hlast, h, Nat.add_comm _ 1, List.range'_append_1]

/-- Replica 0 executes two requests with one commit. -/
theorem executes_in_order_two :
    ∃ c, Cluster.Run (Cluster.KeepsProgress 0) (Cluster.init 3) c
      ∧ (c.state 0).lastExecutedOp = 2 ∧ c.opsPassed 0 = List.range' 1 2 := by
  obtain ⟨c, run, h⟩ := exists_of_replay Cluster.step (Cluster.KeepsProgress 0) (Cluster.init 3)
    (request 0 7 (setRequest 1 1 [97, 32, 97]) ++ request 0 7 (setRequest 1 2 [97, 32, 98])
      ++ receive 0 1 ++ receive 1 1 ++ receive 3 0 ++ receive 2 0)
    (P := fun c => (c.state 0).lastExecutedOp = 2) (by decide +kernel)
  exact ⟨c, run, h, h ▸ (executes_in_order run 0).2 fun _ _ _ hok => hok⟩

end VsrKv
