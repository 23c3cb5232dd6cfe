import VsrKv.Replica

/-!
# Executing committed operations

The specification of `execute_commited_ops` that every caller uses is
`Executed`, the chain of its turns. Two facts about it are enough for the
protocol: execution moves the execution counter, the client table and
the key-value map and nothing else (`Executed.state`), and what it emits
is a record of each op it passed and the replies of a primary
(`Executed.effects`). What the map and the table end up holding is
derived from the turns elsewhere.
-/

namespace VsrKv

namespace Replica

/-! ## One turn of the loop -/

theorem sendReply_state (r : Replica) (e : LogEntry) (res : Bytes) :
    (r.sendReply e res).state = r.state := by
  unfold sendReply
  split
  · split <;> rfl
  · rfl

/-- A reply goes to the connection on record, and only from the primary. -/
theorem sendReply_out (r : Replica) (e : LogEntry) (res : Bytes) :
    (r.sendReply e res).out = r.out ∨ ∃ conn,
      r.clientConnections[e.clientId]? = some conn
        ∧ (r.sendReply e res).out
          = r.out ++ [.toConnection conn (replyMessage r.state e res)] := by
  unfold sendReply
  split
  · split
    · exact Or.inl rfl
    · exact Or.inl rfl
    · rename_i conn _ hconn
      exact Or.inr ⟨conn, hconn, rfl⟩
  · exact Or.inl rfl

/-- The table says that the request of `entry` has been executed. -/
def skips (s : ReplicaState) (entry : LogEntry) : Prop :=
  ¬((s.clientTable.getD entry.clientId {}).requestNumber ≠ entry.requestNum
    ∨ (s.clientTable.getD entry.clientId {}).executed = false)

instance (s : ReplicaState) (entry : LogEntry) : Decidable (skips s entry) :=
  inferInstanceAs (Decidable (¬_))

/-- What a turn at `entry` produces, if it does not skip it. -/
def turnResult (s : ReplicaState) (entry : LogEntry) : Option Bytes :=
  if skips s entry then none else some (applyOperation s.stateMachine entry).2

/-- The state after a turn at `entry`, the op with number `n`. -/
def turnState (s : ReplicaState) (n : Nat) (entry : LogEntry) : ReplicaState :=
  if skips s entry then { s with lastExecutedOp := n }
  else
    { s with
      stateMachine := (applyOperation s.stateMachine entry).1
      clientTable := s.clientTable.insert entry.clientId
        { requestNumber := entry.requestNum, executed := true,
          result := (applyOperation s.stateMachine entry).2 }
      lastExecutedOp := n }

theorem executeOp_state (r : Replica) (n : Nat) (e : LogEntry) :
    (r.executeOp n e).state = turnState r.state n e := by
  unfold executeOp turnState
  by_cases h : skips r.state e
  · rw [if_neg h, if_pos h]
    rfl
  · rw [if_pos (not_not.mp h), if_neg h]
    simp only [sendReply_state]
    rfl

/-- A turn is put on record, and a primary answers if something was executed. -/
theorem executeOp_out (r : Replica) (n : Nat) (e : LogEntry) :
    ∃ replies, (r.executeOp n e).out
        = r.out ++ (.executed r.state.view n e (turnResult r.state e) :: replies)
      ∧ ∀ eff ∈ replies, ∃ conn res, turnResult r.state e = some res
        ∧ eff = .toConnection conn (replyMessage r.state e res) := by
  unfold executeOp turnResult
  by_cases h : skips r.state e
  · rw [if_neg h, if_pos h]
    exact ⟨[], rfl, by simp⟩
  · rw [if_pos (not_not.mp h), if_neg h]
    rcases sendReply_out (emit { r with state := { r.state with
        stateMachine := (applyOperation r.state.stateMachine e).1
        clientTable := r.state.clientTable.insert e.clientId
          { requestNumber := e.requestNum, executed := true,
            result := (applyOperation r.state.stateMachine e).2 } } }
        (.executed r.state.view n e (some (applyOperation r.state.stateMachine e).2)))
        e (applyOperation r.state.stateMachine e).2 with hout | ⟨conn, -, hout⟩
    · exact ⟨[], hout, by simp⟩
    · refine ⟨[.toConnection conn (replyMessage r.state e
        (applyOperation r.state.stateMachine e).2)], ?_, ?_⟩
      · refine hout.trans ?_
        rw [emit, List.append_assoc]
        rfl
      · intro eff heff
        exact ⟨conn, _, rfl, List.mem_singleton.mp heff⟩

/-! ## The loop -/

/-- Execution touches these three fields. -/
def SameExceptExecution (s s' : ReplicaState) : Prop :=
  ∃ n table machine,
    s' = { s with lastExecutedOp := n, clientTable := table, stateMachine := machine }

theorem SameExceptExecution.trans {s₁ s₂ s₃ : ReplicaState} (h₁ : SameExceptExecution s₁ s₂)
    (h₂ : SameExceptExecution s₂ s₃) : SameExceptExecution s₁ s₃ := by
  obtain ⟨n, t, m, rfl⟩ := h₁
  obtain ⟨n', t', m', rfl⟩ := h₂
  exact ⟨n', t', m', rfl⟩

theorem turnState_same (s : ReplicaState) (n : Nat) (e : LogEntry) :
    SameExceptExecution s (turnState s n e) := by
  unfold turnState
  split <;> exact ⟨_, _, _, rfl⟩

@[simp]
theorem turnState_lastExecutedOp (s : ReplicaState) (n : Nat) (e : LogEntry) :
    (turnState s n e).lastExecutedOp = n := by
  unfold turnState
  split <;> rfl

@[simp]
theorem turnState_commit (s : ReplicaState) (n : Nat) (e : LogEntry) :
    (turnState s n e).commit = s.commit := by
  unfold turnState
  split <;> rfl

theorem executeLoop_induct {P : Replica → Prop}
    (hstep : ∀ (r : Replica) (e : LogEntry), P r →
      r.state.lastExecutedOp < r.state.commit →
      r.state.log[r.state.lastExecutedOp + 1]? = some e →
      P (r.executeOp (r.state.lastExecutedOp + 1) e)) :
    ∀ (k : Nat) (r : Replica), k = r.state.commit - r.state.lastExecutedOp → P r →
      P (executeLoop k r) := by
  intro k
  induction k with
  | zero => intro r _ h; exact h
  | succ k ih =>
      intro r hk h
      rw [executeLoop]
      split
      · exact h
      · rename_i e he
        refine ih _ ?_ (hstep r e h (by omega) he)
        rw [executeOp_state, turnState_commit, turnState_lastExecutedOp]
        omega

/-- The loop rule: what holds before and is kept by a turn at a logged op not
beyond the commit number holds after. -/
theorem executeCommitedOps_induct {P : Replica → Prop} {r : Replica} (h0 : P r)
    (hstep : ∀ (r : Replica) (e : LogEntry), P r →
      r.state.lastExecutedOp < r.state.commit →
      r.state.log[r.state.lastExecutedOp + 1]? = some e →
      P (r.executeOp (r.state.lastExecutedOp + 1) e)) :
    P r.executeCommitedOps :=
  executeLoop_induct hstep _ r rfl h0

/-- The loop has nothing to do where the next entry is missing. -/
theorem executeLoop_of_missing {r : Replica}
    (h : r.state.log[r.state.lastExecutedOp + 1]? = none) (k : Nat) :
    executeLoop k r = r := by
  cases k with
  | zero => rfl
  | succ k => rw [executeLoop]; simp only [h]

theorem executeLoop_add (j k : Nat) (r : Replica) :
    executeLoop (j + k) r = executeLoop k (executeLoop j r) := by
  induction j generalizing r with
  | zero => rw [Nat.zero_add]; rfl
  | succ j ih =>
      cases he : r.state.log[r.state.lastExecutedOp + 1]? with
      | none => rw [executeLoop_of_missing he, executeLoop_of_missing he, executeLoop_of_missing he]
      | some e =>
          rw [Nat.succ_add, executeLoop, executeLoop]
          simp only [he]
          exact ih _

theorem executeLoop_same (k : Nat) (r : Replica) :
    SameExceptExecution r.state (executeLoop k r).state := by
  induction k generalizing r with
  | zero => exact ⟨_, _, _, rfl⟩
  | succ k ih =>
      rw [executeLoop]
      split
      · exact ⟨_, _, _, rfl⟩
      · refine .trans ?_ (ih _)
        rw [executeOp_state]
        exact turnState_same _ _ _

/-- How far the loop gets. -/
theorem executeLoop_lastExecutedOp (k : Nat) (r : Replica) :
    (executeLoop k r).state.lastExecutedOp = r.state.lastExecutedOp + k
      ∨ (executeLoop k r).state.log[(executeLoop k r).state.lastExecutedOp + 1]? = none := by
  induction k generalizing r with
  | zero => exact Or.inl rfl
  | succ k ih =>
      cases he : r.state.log[r.state.lastExecutedOp + 1]? with
      | none => rw [executeLoop_of_missing he]; exact Or.inr he
      | some e =>
          rw [executeLoop]
          simp only [he]
          refine (ih _).imp_left fun h => ?_
          rw [h, executeOp_state, turnState_lastExecutedOp]
          omega

/-- What execution in state `s` emits. -/
inductive ExecEffect (s : ReplicaState) : Effect → Prop where
  | executed (n : Nat) (e : LogEntry) (res : Option Bytes) (hn : n ≤ s.commit)
      (hlog : s.log[n]? = some e) : ExecEffect s (.executed s.view n e res)
  | reply (conn : Connection) (e : LogEntry) (res : Bytes) :
      ExecEffect s (.toConnection conn (replyMessage s e res))

/-- Execution, turn by turn, from `s` to `s'`, with what it emits. -/
inductive Executed (s : ReplicaState) : ReplicaState → List Effect → Prop where
  | refl : Executed s s []
  | turn {s' : ReplicaState} {effs : List Effect} {e : LogEntry} (h : Executed s s' effs)
      (hlt : s'.lastExecutedOp < s'.commit) (hlog : s'.log[s'.lastExecutedOp + 1]? = some e)
      (replies : List Effect)
      (hreplies : ∀ eff ∈ replies, ∃ conn res, turnResult s' e = some res
        ∧ eff = .toConnection conn (replyMessage s' e res)) :
      Executed s (turnState s' (s'.lastExecutedOp + 1) e)
        (effs ++ (.executed s'.view (s'.lastExecutedOp + 1) e (turnResult s' e) :: replies))

theorem Executed.state {s s' : ReplicaState} {effs : List Effect} (h : Executed s s' effs) :
    SameExceptExecution s s' := by
  induction h with
  | refl => exact ⟨_, _, _, rfl⟩
  | turn _ _ _ _ _ ih => exact ih.trans (turnState_same _ _ _)

theorem Executed.effects {s s' : ReplicaState} {effs : List Effect} (h : Executed s s' effs) :
    ∀ eff ∈ effs, ExecEffect s eff := by
  induction h with
  | refl => simp
  | turn h hlt hlog replies hreplies ih =>
      intro eff heff
      rcases List.mem_append.mp heff with heff | heff
      · exact ih eff heff
      · -- the turn ran in a state that differs from `s` only in what it executed
        obtain ⟨n, t, m, rfl⟩ := h.state
        rcases List.mem_cons.mp heff with rfl | heff
        · exact .executed _ _ _ hlt hlog
        · obtain ⟨conn, res, -, rfl⟩ := hreplies eff heff
          exact .reply conn _ res

theorem executeCommitedOps_spec (r : Replica) :
    ∃ effs, r.executeCommitedOps.out = r.out ++ effs
      ∧ Executed r.state r.executeCommitedOps.state effs := by
  refine executeCommitedOps_induct
    (P := fun r' => ∃ effs, r'.out = r.out ++ effs ∧ Executed r.state r'.state effs) ?_ ?_
  · exact ⟨[], by simp, .refl⟩
  · rintro r' e ⟨effs, hout, hexec⟩ hlt hlog
    obtain ⟨replies, hout', hreplies⟩ := executeOp_out r' (r'.state.lastExecutedOp + 1) e
    refine ⟨_, ?_, executeOp_state r' _ e ▸ hexec.turn hlt hlog replies hreplies⟩
    rw [hout', hout, List.append_assoc]

/-- The same from an empty output. -/
theorem executeCommitedOps_executed {r : Replica} (hout : r.out = []) :
    Executed r.state r.executeCommitedOps.state r.executeCommitedOps.out := by
  obtain ⟨effs, hout', hexec⟩ := executeCommitedOps_spec r
  rw [hout', hout]
  exact hexec

end Replica

end VsrKv
