import VsrKv.Recovery
import VsrKv.Submissions

/-!
# Requests are executed in the order of real time

Op numbers are handed out by primaries that do not know what clients
know. Still, once a request has been executed somewhere, a request that
a client thinks of only then gets a later op number: the executing
replica has passed everything below, and whoever executes an op there
executes the same entry (`requested_by_then`). This is what a client
relies on that waits for an answer before it asks for the next thing.

Agreement and the origin of entries are used as they are. The latter is
for op numbers that fit into their type, and those of a run in which no
log has an entry at 0 do (`opsFit_of_inRange`).
-/

namespace VsrKv

open Replica TransitionSystem
open Event (process receive request)

namespace Cluster

variable {c c' : Cluster} {ev : Event}

/-! ## Op numbers that fit -/

theorem log_handleRequest {r : Replica} {im : InboundMessage}
    (hnew : takesForNew r.state im.message = true) :
    (r.handleRequest im).state.log
      = r.state.log.insert (u64 (r.state.op + 1))
        (entryOf r.state.view im.message {r.state.id}) := by
  simp only [takesForNew, Bool.and_eq_true, decide_eq_true_eq] at hnew
  have hlt : (r.state.clientTable.getD im.message.header.client {}).requestNumber
      < im.message.header.request := hnew.2
  unfold handleRequest
  simp only [if_neg (Nat.lt_asymm hlt), if_neg hlt.ne]
  rfl

theorem log_handlePrepare (r : Replica) (im : InboundMessage) :
    (r.handlePrepare im).state.log
      = r.state.log.insert (u64 (r.state.op + 1)) (entryOf r.state.view im.message ∅) := by
  unfold handlePrepare
  simp only []
  obtain ⟨effs, -, hexec⟩ := raiseCommit_spec (sendMessage
    { r with state := appendEntry r.state (entryOf r.state.view im.message ∅) } im.connection
    (prepareOkMessage (appendEntry r.state (entryOf r.state.view im.message ∅))
      (u64 (r.state.op + 1)))) im.message.header.commit
  obtain ⟨n, t, m, heq⟩ := hexec.state
  exact congrArg ReplicaState.log heq

/-- An entry that is logged is logged at the next op number. -/
theorem mem_log_tick {env : Env} {n : Node} {im : InboundMessage} {rest : List InboundMessage}
    (hpass : n.pass ≠ none) (hqueue : n.messageQueue = im :: rest)
    (hlogs : logsEntry n.replica.state im.message = true) :
    u64 (n.replica.state.op + 1) ∈ (n.tick env).replica.state.log := by
  obtain ⟨b, hb⟩ := Option.ne_none_iff_exists'.mp hpass
  have htick : Node.isStale n.replica.state im.message = false → n.replica.canProcess im = true →
      (n.tick env).replica = Node.dispatch env n.replica im := by
    intro hstale hcan
    simp only [Node.tick, hb, hqueue, hstale, hcan, Bool.false_eq_true, if_false, if_true]
  rcases Bool.or_eq_true_iff.mp hlogs with hnew | hprepare
  · have h := hnew
    simp only [takesForNew, Bool.and_eq_true, beq_iff_eq] at h
    obtain ⟨⟨hcmd, hcan⟩, -⟩ := h
    rw [htick (by simp [Node.isStale, hcmd]) (by simp [canProcess, hcmd, hcan])]
    simp only [Node.dispatch, hcmd, log_handleRequest hnew]
    exact Std.ExtTreeMap.mem_insert_self
  · simp only [Bool.and_eq_true, beq_iff_eq] at hprepare
    obtain ⟨hcmd, hcan⟩ := hprepare
    have hview : im.message.header.view = n.replica.state.view := by
      simp only [checkCanProcessPrepare, Bool.and_eq_true, beq_iff_eq] at hcan
      exact hcan.1.2
    rw [htick (by simp [Node.isStale, hview]) (by simp [canProcess, hcmd, hcan])]
    simp only [Node.dispatch, hcmd, log_handlePrepare]
    exact Std.ExtTreeMap.mem_insert_self

/-- The op counter has not wrapped if no log has an entry at 0. -/
theorem opsFit_of_inRange (hbounded : Bounded c) (hstep : c.step ev = some c')
    (hrange : c'.InRange) : c.OpsFit ev c' := by
  intro i hi im him hlogs
  cases ev with
  | tick k env =>
      obtain rfl : k = i := by simpa [Event.ticked?] using hi
      simp only [step, Option.ite_none_right_eq_some, Option.some.injEq] at hstep
      obtain ⟨⟨hlt, hpass⟩, rfl⟩ := hstep
      obtain ⟨rest, hqueue⟩ := List.head?_eq_some_iff.mp him
      by_contra hwrap
      have hop := (hbounded.states k).op
      have hlast : (c.state k).op + 1 = 2 ^ 64 := by omega
      have hmem := @mem_log_tick env _ _ _ hpass hqueue hlogs
      have hnone := (hrange k hlt).2
      rw [state_put, if_pos rfl] at hnone
      refine hnone ?_
      rwa [show (c.nodes k).replica.state.op + 1 = 2 ^ 64 from hlast] at hmem
  | _ => simp [Event.ticked?] at hi

theorem opsFit_path {ok : Cluster → Event → Cluster → Prop} {n : Nat} {es : List Event}
    (hok : ∀ c ev c', ok c ev c' → c'.InRange) (path : Path step ok (init n) es c) :
    Path step OpsFit (init n) es c :=
  path.mono fun path hstep h => opsFit_of_inRange (bounded_run path.steps) hstep (hok _ _ _ h)

/-! ## What has been passed -/

theorem mem_history {i : Nat} {eff : Effect} : eff ∈ c.history i ↔ (i, eff) ∈ c.trace := by
  simp [history]

theorem mem_opsPassed {i n : Nat} :
    n ∈ c.opsPassed i ↔ ∃ v e res, (i, Effect.executed v n e res) ∈ c.trace := by
  rw [opsPassed, List.mem_filterMap]
  constructor
  · rintro ⟨eff, heff, hop⟩
    cases eff with
    | executed v m e res =>
        obtain rfl : m = n := by simpa [Effect.op?, Effect.turn?] using hop
        exact ⟨v, e, res, mem_history.mp heff⟩
    | _ => simp [Effect.op?, Effect.turn?] at hop
  · rintro ⟨v, e, res, hmem⟩
    exact ⟨.executed v n e res, mem_history.mpr hmem, rfl⟩

/-- Only replicas of the cluster do anything. -/
theorem lt_of_mem_trace {ok : Cluster → Event → Cluster → Prop} {size : Nat}
    (run : Run ok (init size) c) {i : Nat} {eff : Effect} (hmem : (i, eff) ∈ c.trace) :
    i < size := by
  refine run.invariant (I := fun c => ∀ i eff, (i, eff) ∈ c.trace → i < size)
    (fun _ _ hmem => by cases hmem) ?_ i eff hmem
  intro u ev v run hstep _ h i eff hmem
  rcases (step_moves (static_run run) hstep).emits hmem with hmem | hemits
  · exact h i eff hmem
  · have hsize := size_run run
    cases hemits with
    | act _ _ _ _ _ hlt => exact hsize ▸ hlt
    | startViewChange hlt => exact hsize ▸ hlt
    | recovery _ hlt => exact hsize ▸ hlt
    | commit hlt => exact hsize ▸ hlt

/-- Who has executed an op has executed all ops before it. -/
theorem exists_executed_below {ok : Cluster → Event → Cluster → Prop} {size : Nat}
    (run : Run ok (init size) c) {i v n m : Nat} {e : LogEntry} {res : Option Bytes}
    (hexec : (i, Effect.executed v n e res) ∈ c.trace) (hm : 1 ≤ m) (hle : m ≤ n) :
    ∃ w e' res', (i, Effect.executed w m e' res') ∈ c.trace :=
  mem_opsPassed.mp ((inOrder_run run i).climbs.mem_of_le (mem_opsPassed.mpr ⟨v, e, res, hexec⟩)
    hm hle)

end Cluster

/-- What is executed at or below an op that has been executed was asked for by
then: later requests get later op numbers. -/
theorem requested_by_then (f : Nat) (hsmall : 2 * f + 1 ≤ 256) {es₁ es₂ : List Event}
    {c₁ c₂ : Cluster}
    (path₁ : Path Cluster.step Cluster.HarmlessRestarts (Cluster.init (2 * f + 1)) es₁ c₁)
    (path₂ : Path Cluster.step Cluster.HarmlessRestarts c₁ es₂ c₂) {i j v w n m : Nat}
    {e e' : LogEntry} {res res' : Option Bytes}
    (hexec : (i, Effect.executed v n e res) ∈ c₁.trace)
    (hexec' : (j, Effect.executed w m e' res') ∈ c₂.trace) (hle : m ≤ n) :
    Cluster.Submitted es₁ e'.submission := by
  have hok : ∀ {c ev c'}, c.Moves ev c' → c.size = 2 * f + 1 → Cluster.HarmlessRestarts c ev c' →
      c.Admissible ev c' ∧ (f = 1 ∨ c.KeepsLogs c') := fun hmoves hsize h =>
    ⟨h.1, hmoves.three_or_keepsLogs hsize h.1 h.2⟩
  obtain ⟨a₁, h₁, -⟩ := (safe_init f).run hsmall hok path₁.steps
  obtain ⟨a₂, h₂, hext⟩ := h₁.run hsmall hok path₂.steps
  have hsub := Cluster.trace_subset_run h₁.refines.static path₂.steps
  have hpos : 1 ≤ m := (entryAt_isSome (h₂.refines.executed j w m e' res' hexec').1).1
  -- the replica that has executed op `n` has executed op `m`
  obtain ⟨u, e'', res'', hbelow⟩ :=
    Cluster.exists_executed_below path₁.steps hexec hpos hle
  have hagree := h₂.executionsAgree _ _ _ _ _ _ _ _ _ (hsub hbelow) hexec'
  have hconveyed :=
    Cluster.conveyed_path (Cluster.opsFit_path (fun _ _ _ h => h.1.range) path₁)
  have hsubmitted := hconveyed.executed i u m e'' res'' hbelow
  rwa [← LogEntry.submission_strip, hagree] at hsubmitted

/-- Replica 0 executes a request of client 1. -/
def executedAtPrimary : List Event :=
  request 0 7 (setRequest 1 1 [97, 32, 98]) ++ receive 0 1 ++ receive 1 0

/-- Client 2 has one too; replica 1 then executes both. -/
def executedAtBackup : List Event :=
  request 0 8 (setRequest 2 1 [97, 32, 99]) ++ receive 1 1 ++ receive 2 0 ++ [.heartbeat 0]
    ++ receive 2 1

theorem requested_by_then_backup :
    ∃ c₁ c₂,
      Path Cluster.step Cluster.HarmlessRestarts (Cluster.init (2 * 1 + 1)) executedAtPrimary c₁
      ∧ Path Cluster.step Cluster.HarmlessRestarts c₁ executedAtBackup c₂ ∧ 2 ∈ c₂.opsPassed 1
      ∧ ∃ v e res, (1, Effect.executed v 1 e res) ∈ c₂.trace
        ∧ Cluster.Submitted executedAtPrimary e.submission := by
  obtain ⟨c₁, c₂, path₁, path₂, hfirst, htwo, hlater⟩ := exists_path_of_replay₂ Cluster.step
    Cluster.HarmlessRestarts (Cluster.init (2 * 1 + 1)) executedAtPrimary executedAtBackup
    (P := fun c₁ c₂ => 1 ∈ c₁.opsPassed 0 ∧ 2 ∈ c₂.opsPassed 1 ∧ 1 ∈ c₂.opsPassed 1)
    (by decide +kernel)
  obtain ⟨w, e, res, hexec⟩ := Cluster.mem_opsPassed.mp hfirst
  obtain ⟨v, e', res', hexec'⟩ := Cluster.mem_opsPassed.mp hlater
  exact ⟨c₁, c₂, path₁, path₂, htwo, v, e', res', hexec',
    requested_by_then 1 (by norm_num) path₁ path₂ hexec hexec' (Nat.le_refl 1)⟩

end VsrKv
