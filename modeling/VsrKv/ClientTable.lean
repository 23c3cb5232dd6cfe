import VsrKv.Actions

/-!
# The client table

One entry a client: the last request heard of, whether it has been
executed, and its result. Requests, prepares, adopted logs and execution
all write to it. These are the equations for what each of them leaves of
an entry; the last section puts them together for a handled message.
-/

namespace VsrKv

open Replica

variable {s s' : ReplicaState} {client : UInt128}

theorem getD_insert_table (t : StdMap UInt128 ClientTableEntry) (k x : UInt128)
    (v d : ClientTableEntry) : (t.insert k v).getD x d = if x = k then v else t.getD x d := by
  rw [Std.ExtTreeMap.getD_insert]
  by_cases h : x = k
  · subst h; simp
  · have hne : ¬compare k x = .eq := fun heq => h (UInt128.eq_of_compare heq).symm
    simp [h, hne]

/-! ## Looking up, logging and adopting -/

@[simp]
theorem clientEntry_touched (x : UInt128) :
    (touched s x).clientEntry client = s.clientEntry client := by
  rw [touched, ReplicaState.clientEntry, getD_insert_table]
  split
  · rename_i h; rw [h]
  · rfl

theorem clientEntry_appendEntry (e : LogEntry) :
    (appendEntry s e).clientEntry client
      = if client = e.clientId then { requestNumber := e.requestNum }
        else s.clientEntry client := by
  rw [appendEntry, ReplicaState.clientEntry, getD_insert_table]
  rfl

theorem clientEntry_appendEntry_of_executed (e : LogEntry)
    (hexec : ((appendEntry s e).clientEntry client).executed = true) :
    (appendEntry s e).clientEntry client = s.clientEntry client := by
  rw [clientEntry_appendEntry] at hexec ⊢
  split at hexec
  · cases hexec
  · rename_i hne; rw [if_neg hne]

theorem getD_coverEntry (t : StdMap UInt128 ClientTableEntry) (e : LogEntry)
    (h : ((coverEntry t e).getD client {}).executed = true) :
    (coverEntry t e).getD client {} = t.getD client {} := by
  unfold coverEntry at h ⊢
  simp only [getD_insert_table] at h ⊢
  by_cases hc : client = e.clientId
  · subst hc
    rw [if_pos rfl] at h ⊢
    split at h
    · cases h
    · rename_i hle; rw [if_neg hle]
  · rw [if_neg hc]

/-- A log that is adopted brings no request that counts as executed. -/
theorem getD_coverLog (t : StdMap UInt128 ClientTableEntry) (log : Log)
    (h : ((coverLog t log).getD client {}).executed = true) :
    (coverLog t log).getD client {} = t.getD client {} := by
  unfold coverLog at h ⊢
  generalize log.toList = l at h ⊢
  induction l generalizing t with
  | nil => rfl
  | cons p l ih =>
      rw [List.foldl_cons] at h ⊢
      have heq := ih _ h
      rw [heq] at h ⊢
      exact getD_coverEntry t p.2 h

theorem clientEntry_adoptedState (h : VsrHeader) (log : Log)
    (hexec : ((adoptedState s h log).clientEntry client).executed = true) :
    (adoptedState s h log).clientEntry client = s.clientEntry client :=
  getD_coverLog s.clientTable log hexec

theorem executed_adoptResponse (best : VsrMessage) :
    ((adoptResponse s best).clientEntry client).executed = false := by
  by_contra h
  have h : ((coverLog ∅ (RecoveryResponsePayload.deserialize best.payload {}).2.log).getD client
      {}).executed = true := Bool.eq_true_of_not_eq_false h
  rw [getD_coverLog _ _ h] at h
  simp at h

/-! ## Execution -/

theorem clientEntry_turnState (n : Nat) (e : LogEntry) :
    (turnState s n e).clientEntry client
      = match turnResult s e with
        | some result =>
            if client = e.clientId then { requestNumber := e.requestNum, executed := true, result }
            else s.clientEntry client
        | none => s.clientEntry client := by
  unfold turnState turnResult
  split
  · rfl
  · rw [ReplicaState.clientEntry, getD_insert_table]
    rfl

end VsrKv
