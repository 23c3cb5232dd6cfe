import VsrKv.Assignments
import VsrKv.DecidedLog
import VsrKv.Words

/-!
# What executing a log means

The key-value store in terms of the log alone. A `SET` binds the first
word of its payload to the second, nothing else changes the map, and a
`GET` answers with what the latest `SET` of its key before it bound
(`mapAfter`, `answer`). `applyOperation`, which reads the words off a
stream and keeps a map, does the same (`applyOperation_mapAfter`).

`execute_commited_ops` gets there if it never skips: as long as no
request is in the log twice, each turn executes its entry, and what has
been executed is a prefix of the log (`Executed.replayed`). The map it
began with is a parameter, since not every execution begins with an
empty one.
-/

namespace VsrKv

open Assignments Replica
open Words (isSpace)

/-! ## Reference semantics -/

def LogEntry.keyWord (e : LogEntry) : Bytes := Words.word isSpace 0 e.payload

def LogEntry.valueWord (e : LogEntry) : Bytes := Words.word isSpace 1 e.payload

/-- The map that the entries `l` leave, beginning with `m`. -/
def mapAfter (m : StdMap Bytes Bytes) (l : List LogEntry) : StdMap Bytes Bytes :=
  l.foldl (fun m e => if e.opType = .set then m.insert e.keyWord e.valueWord else m) m

/-- What the entries bind, in order. -/
def bindings (l : List LogEntry) : List (Bytes × Bytes) :=
  (l.filter (·.opType = .set)).map fun e => (e.keyWord, e.valueWord)

/-- What the client of `e` is told if `l` has been executed before it,
beginning with `m`. -/
def answer (m : StdMap Bytes Bytes) (l : List LogEntry) (e : LogEntry) : Bytes :=
  match e.opType with
  | .set => setResult e.keyWord e.valueWord
  | .get => ((latest (bindings l) e.keyWord).or m[e.keyWord]?).getD notFound
  | _ => []

theorem mapAfter_eq_assign (m : StdMap Bytes Bytes) (l : List LogEntry) :
    mapAfter m l = assign m (bindings l) := by
  induction l generalizing m with
  | nil => rfl
  | cons e l ih =>
      rw [mapAfter, List.foldl_cons, ← mapAfter, ih, bindings, bindings]
      by_cases h : e.opType = .set
      · simp [h, assign]
      · simp [h]

theorem mapAfter_concat (m : StdMap Bytes Bytes) (l : List LogEntry) (e : LogEntry) :
    mapAfter m (l ++ [e])
      = if e.opType = .set then (mapAfter m l).insert e.keyWord e.valueWord
        else mapAfter m l := by
  rw [mapAfter, List.foldl_append]
  rfl

theorem nextToken_eq (payload : Bytes) :
    (nextToken payload).1 = Words.word isSpace 0 payload
      ∧ (nextToken (nextToken payload).2).1 = Words.word isSpace 1 payload :=
  ⟨(Words.word_zero payload).symm,
    (Words.word_zero _).symm.trans (Words.word_succ 0 payload).symm⟩

/-- The code's one operation is the next step of the reference. -/
theorem applyOperation_mapAfter (m : StdMap Bytes Bytes) (l : List LogEntry) (e : LogEntry) :
    applyOperation (mapAfter m l) e = (mapAfter m (l ++ [e]), answer m l e) := by
  obtain ⟨hkey, hvalue⟩ := nextToken_eq e.payload
  rw [mapAfter_concat, applyOperation.eq_def, answer.eq_def]
  cases h : e.opType with
  | set => simp [hkey, hvalue, LogEntry.keyWord, LogEntry.valueWord]
  | get => simp [hkey, LogEntry.keyWord, mapAfter_eq_assign, getElem?_assign]
  | reserved => simp
  | update => simp
  | other k => simp

/-! ## Turns of the loop -/

/-- The turn of `execute_commited_ops` that an effect puts on record. -/
def Effect.turn? : Effect → Option (Nat × LogEntry × Option Bytes)
  | .executed _ n e result => some (n, e.strip, result)
  | _ => none

/-- The turns of executing the first `n` entries of `l` one after the other,
each of them once. -/
def turns (m : StdMap Bytes Bytes) (l : List LogEntry) (n : Nat) :
    List (Nat × LogEntry × Option Bytes) :=
  (List.range n).filterMap fun k =>
    (l[k]?).map fun e => (k + 1, e, some (answer m (l.take k) e))

section

variable {m : StdMap Bytes Bytes} {l : List LogEntry} {s s' : ReplicaState} {effs : List Effect}

theorem turns_succ {n : Nat} {e : LogEntry} (he : l[n]? = some e) :
    turns m l (n + 1) = turns m l n ++ [(n + 1, e, some (answer m (l.take n) e))] := by
  simp [turns, List.range_succ, he]

theorem map_fst_turns {n : Nat} (hn : n ≤ l.length) :
    (turns m l n).map (·.1) = List.range' 1 n := by
  induction n with
  | zero => rfl
  | succ n ih =>
      rw [turns_succ (List.getElem?_eq_getElem hn), List.map_append, ih (by omega),
        List.range'_concat, List.map_singleton, Nat.one_mul, Nat.add_comm 1 n]

/-- Entries that follow make no difference. -/
theorem turns_append {n : Nat} (hn : n ≤ l.length) (l' : List LogEntry) :
    turns m (l ++ l') n = turns m l n := by
  refine List.filterMap_congr fun k hk => ?_
  have hk : k < l.length := (List.mem_range.mp hk).trans_le hn
  rw [List.getElem?_append_left hk, List.take_append_of_le_length hk.le]

/-- The first `lastExecutedOp` entries of `l` have been executed, beginning
with `m`, and the client table has nothing else as executed. -/
structure Replayed (m : StdMap Bytes Bytes) (l : List LogEntry) (s : ReplicaState) : Prop where
  reached : s.lastExecutedOp ≤ l.length
  machine : s.stateMachine = mapAfter m (l.take s.lastExecutedOp)
  table : ∀ client, (s.clientEntry client).executed = true →
    ∃ k e, k < s.lastExecutedOp ∧ l[k]? = some e
      ∧ e.key = (client, (s.clientEntry client).requestNumber)

/-- A request that is in the log once is not skipped. -/
theorem Replayed.not_skips (h : Replayed m l s) (hdistinct : (l.map LogEntry.key).Nodup)
    {e : LogEntry} (he : l[s.lastExecutedOp]? = some e.strip) : ¬skips s e := by
  intro hskip
  simp only [skips, not_or, ne_eq, not_not, Bool.not_eq_false] at hskip
  obtain ⟨hnumber, hexec⟩ := hskip
  obtain ⟨k, e', hk, he', hkey⟩ := h.table e.clientId hexec
  have hsame : (l.map LogEntry.key)[k]? = (l.map LogEntry.key)[s.lastExecutedOp]? := by
    rw [List.getElem?_map, List.getElem?_map, he', he, Option.map_some, Option.map_some, hkey]
    exact congrArg (fun n => some (e.clientId, n)) hnumber
  have hlt : k < (l.map LogEntry.key).length := by
    rw [List.length_map]
    exact hk.trans_le h.reached
  have := (List.getElem?_inj hlt hdistinct).mp hsame
  omega

theorem Replayed.turn (h : Replayed m l s) (hdistinct : (l.map LogEntry.key).Nodup)
    {e : LogEntry} (he : l[s.lastExecutedOp]? = some e.strip) :
    turnResult s e = some (answer m (l.take s.lastExecutedOp) e.strip)
      ∧ Replayed m l (turnState s (s.lastExecutedOp + 1) e) := by
  have hskip := h.not_skips hdistinct he
  have hlt : s.lastExecutedOp < l.length := (List.getElem?_eq_some_iff.mp he).1
  have happly : applyOperation s.stateMachine e
      = (mapAfter m (l.take s.lastExecutedOp ++ [e.strip]),
        answer m (l.take s.lastExecutedOp) e.strip) := by
    rw [h.machine]
    exact applyOperation_mapAfter m (l.take s.lastExecutedOp) e.strip
  have hresult : turnResult s e = some (answer m (l.take s.lastExecutedOp) e.strip) := by
    rw [turnResult, if_neg hskip, happly]
  refine ⟨hresult, ?_, ?_, ?_⟩
  · rw [turnState_lastExecutedOp]
    exact hlt
  · rw [turnState_lastExecutedOp, turnState, if_neg hskip, List.take_add_one, he]
    exact congrArg Prod.fst happly
  · intro client hexec
    rw [clientEntry_turnState, hresult] at hexec ⊢
    simp only [turnState_lastExecutedOp] at hexec ⊢
    split at hexec
    · rename_i hclient
      rw [if_pos hclient]
      exact ⟨s.lastExecutedOp, e.strip, by omega, he, by rw [hclient]; rfl⟩
    · rename_i hclient
      rw [if_neg hclient]
      obtain ⟨k, e', hk, he', hkey⟩ := h.table client hexec
      exact ⟨k, e', by omega, he', hkey⟩

/-- Executing what is logged as `l`, whatever the commit number allows. -/
theorem Replica.Executed.replayed (hexec : Executed s s' effs) (h : Replayed m l s)
    (hlog : Represents s.log s.op l) (hdistinct : (l.map LogEntry.key).Nodup) :
    Replayed m l s'
      ∧ turns m l s.lastExecutedOp ++ effs.filterMap Effect.turn?
        = turns m l s'.lastExecutedOp := by
  induction hexec with
  | refl => exact ⟨h, by simp⟩
  | @turn s₁ effs e hexec hlt hlog' replies hreplies ih =>
      obtain ⟨h₁, hturns⟩ := ih
      have he : l[s₁.lastExecutedOp]? = some e.strip := by
        obtain ⟨n, t, mm, rfl⟩ := hexec.state
        exact hlog.entryAt_some hlog'
      obtain ⟨hresult, h₂⟩ := h₁.turn hdistinct he
      have hreplies' : replies.filterMap Effect.turn? = [] :=
        List.filterMap_eq_nil_iff.mpr fun eff heff => by
          obtain ⟨conn, res, -, rfl⟩ := hreplies eff heff
          rfl
      refine ⟨h₂, ?_⟩
      rw [List.filterMap_append, ← List.append_assoc, hturns, turnState_lastExecutedOp,
        turns_succ he]
      simp [Effect.turn?, hresult, hreplies']

end

end VsrKv
