import VsrKv.ClientTable
import VsrKv.LogList

/-!
# Executing a decided log

What a replica's key-value map is, once and for all: the result of
applying the decided entries, in order, up to the op it has executed
last. Two things could spoil this. The entries could differ between
replicas, which agreement rules out; and `execute_commited_ops` skips an
entry when the client table has its request as executed. The table knows
one request a client, so a skip is right only if it never happens to a
request for the first time. If no request is decided at two op numbers
it never happens at all, and every decided entry is applied once.
-/

namespace VsrKv

open Replica

/-- What identifies a request. -/
def LogEntry.key (e : LogEntry) : UInt128 × Nat := (e.clientId, e.requestNum)

/-- The request an effect says was executed, not skipped. -/
def Effect.applied? : Effect → Option (UInt128 × Nat)
  | .executed _ _ e (some _) => some e.key
  | _ => none

def applyAll (l : List LogEntry) : StdMap Bytes Bytes :=
  l.foldl (fun m e => (applyOperation m e).1) ∅

/-- The replica has applied the first `lastExecutedOp` decided entries, and its
client table calls nothing else executed. `D n e` says that `e` is decided at
`n`. -/
structure Applied (D : Nat → LogEntry → Prop) (past : List Effect) (s : ReplicaState)
    (l : List LogEntry) : Prop where
  length : l.length = s.lastExecutedOp
  decided : ∀ n e, entryAt l n = some e → D n e
  strip : ∀ e ∈ l, e.strip = e
  machine : s.stateMachine = applyAll l
  past : past.filterMap Effect.applied? = l.map LogEntry.key
  table : ∀ client, (s.clientEntry client).executed = true →
    ∃ e ∈ l, e.key = (client, (s.clientEntry client).requestNumber)

section

variable {D D' : Nat → LogEntry → Prop} {past effs : List Effect} {s s' : ReplicaState}
  {l l' : List LogEntry}

theorem Applied.mono (hD : ∀ n e, D n e → D' n e) (h : Applied D past s l) :
    Applied D' past s l :=
  ⟨h.length, fun n e he => hD n e (h.decided n e he), h.strip, h.machine, h.past, h.table⟩

/-- A change that executes nothing and calls nothing executed. -/
theorem Applied.of_same (h : Applied D past s l) (hop : s'.lastExecutedOp = s.lastExecutedOp)
    (hmachine : s'.stateMachine = s.stateMachine)
    (htable : ∀ client, (s'.clientEntry client).executed = true →
      s'.clientEntry client = s.clientEntry client) : Applied D past s' l where
  length := h.length.trans hop.symm
  decided := h.decided
  strip := h.strip
  machine := hmachine.trans h.machine
  past := h.past
  table client hexec := by
    have heq := htable client hexec
    rw [heq] at hexec ⊢
    exact h.table client hexec

theorem Applied.append (h : Applied D past s l) (heffs : ∀ eff ∈ effs, eff.applied? = none) :
    Applied D (past ++ effs) s l := by
  have hnone : effs.filterMap Effect.applied? = [] := List.filterMap_eq_nil_iff.mpr heffs
  refine { h with past := ?_ }
  rw [List.filterMap_append, hnone, List.append_nil, h.past]

/-- Two replicas that have applied equally many decided entries have applied
the same ones. -/
theorem Applied.unique (h : Applied D past s l) {past' : List Effect}
    (h' : Applied D past' s' l') (hD : ∀ n e e', D n e → D n e' → e.strip = e'.strip)
    (hop : s.lastExecutedOp = s'.lastExecutedOp) : l = l' := by
  have hlen : l.length = l'.length := by rw [h.length, h'.length, hop]
  refine List.ext_getElem hlen ?_
  intro k hk hk'
  have he : entryAt l (k + 1) = some l[k] := List.getElem?_eq_getElem hk
  have he' : entryAt l' (k + 1) = some l'[k] := List.getElem?_eq_getElem hk'
  have hagree := hD (k + 1) _ _ (h.decided _ _ he) (h'.decided _ _ he')
  rwa [h.strip _ (List.getElem_mem hk), h'.strip _ (List.getElem_mem hk')] at hagree

/-- No request is decided at two op numbers. -/
def Once (D : Nat → LogEntry → Prop) : Prop :=
  ∀ n n' e e', D n e → D n' e' → e.key = e'.key → n = n'

theorem exists_entryAt_of_mem {e : LogEntry} (he : e ∈ l) : ∃ n, entryAt l n = some e := by
  obtain ⟨k, hk, rfl⟩ := List.getElem_of_mem he
  exact ⟨k + 1, List.getElem?_eq_getElem hk⟩

theorem Applied.nodup (h : Applied D past s l) (honce : Once D) :
    (past.filterMap Effect.applied?).Nodup := by
  rw [h.past, List.nodup_iff_injective_get]
  intro i j hij
  have hget : ∀ k : Fin (l.map LogEntry.key).length, ∃ e,
      entryAt l (k + 1) = some e ∧ (l.map LogEntry.key).get k = e.key := by
    intro k
    have hk : k.val < l.length := by simpa using k.isLt
    exact ⟨l[k.val], List.getElem?_eq_getElem hk, by simp⟩
  obtain ⟨e, he, hkey⟩ := hget i
  obtain ⟨e', he', hkey'⟩ := hget j
  have hop := honce _ _ _ _ (h.decided _ _ he) (h.decided _ _ he') (by rw [← hkey, ← hkey', hij])
  exact Fin.ext (by omega)

/-! ## Execution -/

/-- The op that comes next is never skipped: it would have been decided
before. -/
theorem Applied.not_skips (h : Applied D past s l) (honce : Once D) {e : LogEntry}
    (hdec : D (s.lastExecutedOp + 1) e) : ¬skips s e := by
  intro hskip
  simp only [skips, not_or, ne_eq, not_not, Bool.not_eq_false] at hskip
  obtain ⟨hnumber, hexec⟩ := hskip
  obtain ⟨e', he', hkey⟩ := h.table e.clientId hexec
  obtain ⟨n, hn⟩ := exists_entryAt_of_mem he'
  have hle := (entryAt_isSome hn).2
  have heq := honce _ _ _ _ hdec (h.decided n e' hn) (by
    rw [hkey]; exact congrArg (e.clientId, ·) hnumber.symm)
  rw [h.length] at hle
  omega

theorem applyAll_append (l : List LogEntry) (e : LogEntry) :
    applyAll (l ++ [e]) = (applyOperation (applyAll l) e).1 := by
  simp [applyAll]

theorem Replica.Executed.applied (hexec : Executed s s' effs) (h : Applied D past s l)
    (honce : Once D) (hstrip : ∀ n e, D n e → D n e.strip)
    (hdec : ∀ n e, n ≤ s.commit → s.log[n]? = some e → D n e) :
    ∃ l', Applied D (past ++ effs) s' l' := by
  induction hexec with
  | refl => exact ⟨l, by simpa using h⟩
  | @turn s₁ effs e hexec hlt hlog replies hreplies ih =>
      obtain ⟨l₁, h₁⟩ := ih
      -- the log and the commit number are what they were at the start
      have hnext : D (s₁.lastExecutedOp + 1) e := by
        obtain ⟨n, t, m, rfl⟩ := hexec.state
        exact hdec _ e hlt hlog
      have hnot := h₁.not_skips honce hnext
      have hresult : turnResult s₁ e = some (applyOperation s₁.stateMachine e).2 := if_neg hnot
      have hreplies : replies.filterMap Effect.applied? = [] := by
        refine List.filterMap_eq_nil_iff.mpr ?_
        intro eff heff
        obtain ⟨conn, res, -, rfl⟩ := hreplies eff heff
        rfl
      refine ⟨l₁ ++ [e.strip], ?_, ?_, ?_, ?_, ?_, ?_⟩
      · simp [h₁.length]
      · intro n e' he'
        cases n with
        | zero => cases he'
        | succ n =>
            rcases Nat.lt_or_ge n l₁.length with hn | hn
            · refine h₁.decided (n + 1) e' ?_
              rw [← he']
              exact (List.getElem?_append_left hn).symm
            · have hn' : n = l₁.length := by
                have := (entryAt_isSome he').2
                rw [List.length_append, List.length_singleton] at this
                omega
              subst hn'
              rw [entryAt_append_length] at he'
              rw [← Option.some.inj he', h₁.length]
              exact hstrip _ _ hnext
      · intro e' he'
        rcases List.mem_append.mp he' with he' | he'
        · exact h₁.strip e' he'
        · rw [List.mem_singleton.mp he', LogEntry.strip_strip]
      · rw [turnState, if_neg hnot, applyAll_append, ← h₁.machine]
        rfl
      · rw [← List.append_assoc, List.filterMap_append, h₁.past, List.filterMap_cons, hreplies,
          hresult]
        simp [Effect.applied?, LogEntry.key, LogEntry.strip]
      · intro client hexecuted
        rw [clientEntry_turnState, hresult] at hexecuted ⊢
        simp only at hexecuted ⊢
        split at hexecuted
        · rename_i hclient
          rw [if_pos hclient]
          exact ⟨e.strip, by simp, by rw [hclient]; rfl⟩
        · rename_i hclient
          rw [if_neg hclient]
          obtain ⟨e', he', hkey⟩ := h₁.table client hexecuted
          exact ⟨e', List.mem_append_left _ he', hkey⟩

/-! ## Handling a message -/

/-- Outside recovery, handling a message applies decided entries if anything,
provided that what the replica then takes for committed is decided. -/
theorem Acts.applied {env : Env} {im : InboundMessage} (hacts : Acts env s im s' effs)
    (h : Applied D past s l) (honce : Once D) (hstrip : ∀ n e, D n e → D n e.strip)
    (hrec : s.status ≠ .recovery)
    (hdec : s'.status = .normal → ∀ n e, n ≤ s'.commit → s'.log[n]? = some e → D n e) :
    ∃ l', Applied D (past ++ effs) s' l' := by
  -- nothing is executed
  have hquiet : ∀ {s' : ReplicaState} {effs : List Effect},
      s'.lastExecutedOp = s.lastExecutedOp → s'.stateMachine = s.stateMachine →
      s'.clientTable = s.clientTable → (∀ eff ∈ effs, eff.applied? = none) →
      ∃ l', Applied D (past ++ effs) s' l' := by
    intro s' effs hop hmachine htable heffs
    refine ⟨l, (h.of_same hop hmachine ?_).append heffs⟩
    intro client _
    rw [ReplicaState.clientEntry, htable]
    rfl
  -- execution, in normal operation
  have hexecuted : ∀ {past : List Effect} {s₁ s' : ReplicaState} {effs : List Effect},
      Executed s₁ s' effs → s₁.status = .normal →
      (s'.status = .normal → ∀ n e, n ≤ s'.commit → s'.log[n]? = some e → D n e) →
      Applied D past s₁ l → ∃ l', Applied D (past ++ effs) s' l' := by
    intro past s₁ s' effs hexec hst hdec h₁
    refine hexec.applied h₁ honce hstrip ?_
    obtain ⟨n, t, m, rfl⟩ := hexec.state
    exact hdec hst
  cases hacts with
  | ignore => exact hquiet rfl rfl rfl (by simp)
  | pong => exact hquiet rfl rfl rfl (by simp [Effect.applied?])
  | old hcmd hst hprimary effs heffs =>
      refine ⟨l, (h.append ?_).of_same rfl rfl fun _ _ => clientEntry_touched _⟩
      intro eff heff
      obtain ⟨-, rfl⟩ := heffs eff heff
      rfl
  | propose hcmd hst hprimary hnew =>
      refine ⟨l, (h.append (by simp [Effect.applied?])).of_same rfl rfl ?_⟩
      intro client hexec
      rw [clientEntry_appendEntry_of_executed _ hexec, clientEntry_touched]
  | accept s' effs hcmd hst hprimary hview hop hexec =>
      rw [List.append_cons]
      exact hexecuted hexec hst hdec ((h.append (by simp [Effect.applied?])).of_same rfl rfl
        fun client hexec => clientEntry_appendEntry_of_executed _ hexec)
  | acknowledge entry s' effs hcmd hst hprimary hview hentry hexec =>
      exact hexecuted hexec hst hdec (h.of_same rfl rfl fun _ _ => rfl)
  | learn s' effs hcmd hst hprimary hview hexec =>
      exact hexecuted hexec hst hdec (h.of_same rfl rfl fun _ _ => rfl)
  | join => exact hquiet rfl rfl rfl (by simp)
  | vote => exact hquiet rfl rfl rfl (by simp [Effect.applied?])
  | discard => exact hquiet rfl rfl rfl (by simp)
  | collect s₁ d hd => cases hd <;> exact hquiet rfl rfl rfl (by simp)
  | startView s₁ d hd hquorum best hbest s' effs hexec =>
      rw [List.append_cons]
      refine hexecuted hexec rfl hdec ((h.append (by simp [Effect.applied?])).of_same ?_ ?_ ?_)
      · cases hd <;> rfl
      · cases hd <;> rfl
      · intro client _
        cases hd <;> rfl
  | adopt payload s' effs hcmd hview hst hprimary hpayload hexec =>
      obtain ⟨l', h'⟩ := hexecuted hexec rfl hdec
        (h.of_same rfl rfl fun client hexec => clientEntry_adoptedState _ _ hexec)
      rw [← List.append_assoc]
      refine ⟨l', h'.append ?_⟩
      intro eff heff
      obtain ⟨k, -, rfl⟩ := List.mem_map.mp heff
      rfl
  | respond => exact hquiet rfl rfl rfl (by simp [Effect.applied?])
  | gather payload hcmd hst => exact absurd hst hrec
  | recover payload hcmd hst => exact absurd hst hrec

end

end VsrKv
