import VsrKv.MessageQueue

/-!
# Messages that wait

The queue is served strictly in order. A message that is neither stale
nor processable, and about which nothing is to be done, stays at the
head, and everything behind it waits with it (`waiting_head_blocks`),
also what could be processed right away
(`waiting_request_blocks_prepare`). A queue without the waiting message
fares no better only if it begins, past what is stale, with another one
that waits.

The loop goes around again when a pass has taken something off the
queue, and only then. Joining the next view takes nothing off, so if the
first message the loop looks at is what makes the replica join, the loop
returns although the message can be processed now
(`returns_with_nothing_to_do_iff`).
-/

namespace VsrKv

open Replica

/-- `im` can only wait: it is kept, it cannot be processed yet, and it gives
no reason to change view or to recover. -/
def Replica.Waits (r : Replica) (im : InboundMessage) : Prop :=
  Node.isStale r.state im.message = false ∧ r.canProcess im = false
    ∧ (r.state.status = .normal → determineStateAction r.state im.message = .processNormally)

instance (r : Replica) (im : InboundMessage) : Decidable (r.Waits im) :=
  inferInstanceAs (Decidable (_ ∧ _ ∧ (_ → _)))

namespace Node

/-! ## A run, turn by turn -/

/-- The nodes a run passes through. -/
def trajectory (env : Nat → Env) : Nat → Node → List Node
  | 0, n => [n]
  | k + 1, n => if n.pass.isNone then [n] else n :: trajectory env k (n.tick (env k))

/-- The message the next turn hands to its handler. -/
def handles? (n : Node) : Option InboundMessage :=
  match n.pass, n.messageQueue with
  | some _, im :: _ =>
      if !isStale n.replica.state im.message && n.replica.canProcess im then some im else none
  | _, _ => none

/-- The nodes `process_message_queue` passes through. -/
def passedThrough (env : Nat → Env) (n : Node) : List Node :=
  let n := { n with pass := some false }
  trajectory env n.turnsLeft n

/-- The messages `process_message_queue` hands to their handlers. -/
def handled (env : Nat → Env) (n : Node) : List InboundMessage :=
  (n.passedThrough env).filterMap handles?

/-- Nothing in the queue can be processed before something else happens: its
first message that is not stale, if there is one, waits. -/
def Idle (r : Replica) (q : List InboundMessage) : Prop :=
  ∀ im ∈ (q.dropWhile (isStale r.state ·.message)).head?, r.Waits im

variable {env : Nat → Env} {n : Node} {k : Nat} {b : Bool} {m : InboundMessage}
  {q : List InboundMessage}

theorem run_tick (hp : n.pass = some b) : run env (k + 1) n = run env k (n.tick (env k)) := by
  simp [run, hp]

theorem trajectory_tick (hp : n.pass = some b) :
    (trajectory env (k + 1) n).filterMap handles?
      = n.handles?.toList ++ (trajectory env k (n.tick (env k))).filterMap handles? := by
  rw [trajectory, hp, Option.isNone_some, if_neg Bool.false_ne_true]
  cases h : n.handles? with
  | none => rw [List.filterMap_cons_none h]; rfl
  | some im => rw [List.filterMap_cons_some h]; rfl

/-- A run that has returned stays where it is. -/
theorem run_returned (hp : n.pass = none) : run env k n = n := by
  cases k <;> simp [run, hp]

theorem trajectory_returned (hp : n.pass = none) :
    (trajectory env k n).filterMap handles? = [] := by
  have hnone : n.handles? = none := by simp [handles?, hp]
  cases k <;> simp [trajectory, hp, hnone]

theorem handles?_of_waits (hq : n.messageQueue = m :: q) (hwaits : n.replica.Waits m) :
    n.handles? = none := by
  unfold handles?
  cases n.pass <;> simp [hq, hwaits.2.1]

/-- A waiting message ends the pass, and that is all. -/
theorem tick_of_waits {e : Env} (hp : n.pass = some b) (hq : n.messageQueue = m :: q)
    (hwaits : n.replica.Waits m) :
    n.tick e = { n with pass := if b then some false else none } := by
  obtain ⟨hstale, hcan, haction⟩ := hwaits
  have hreact : n.reactToStuck e = n := by
    unfold reactToStuck
    rw [hq]
    by_cases hst : n.replica.state.status = .normal
    · simp [hst, haction hst]
    · simp [hst]
  simp [tick, hp, hq, hstale, hcan, endPass, hreact]

/-! ## Idle queues -/

/-- An idle queue loses what is stale at its front and nothing else happens. -/
theorem run_of_idle (env : Nat → Env) (hp : n.pass = some b) (hk : n.turnsLeft ≤ k)
    (hidle : Idle n.replica n.messageQueue) :
    run env k n = { n with
      messageQueue := n.messageQueue.dropWhile (isStale n.replica.state ·.message)
      pass := none }
    ∧ (trajectory env k n).filterMap handles? = [] := by
  -- by fuel: every turn either drops a stale message or ends a pass
  induction k generalizing n b with
  | zero => simp [turnsLeft, hp] at hk
  | succ k ih =>
      have hless := turnsLeft_tick (env k) (n := n) (by simp [hp])
      rw [run_tick hp, trajectory_tick hp]
      cases hq : n.messageQueue with
      | nil =>
          have htick : n.tick (env k) = { n with pass := if b then some false else none } := by
            simp [tick, hp, hq, endPass, reactToStuck]
          have hnone : n.handles? = none := by simp [handles?, hp, hq]
          rw [htick] at hless ⊢
          rw [hnone]
          cases b with
          | false =>
              rw [run_returned (by simp), trajectory_returned (by simp)]
              simp [hq]
          | true =>
              obtain ⟨hrun, hhandled⟩ := ih (n := { n with pass := some false }) (b := false) rfl
                (by simpa using Nat.lt_succ_iff.mp (hless.trans_le hk)) (by simpa [hq] using hidle)
              exact ⟨by simpa [hq] using hrun, by simpa using hhandled⟩
      | cons im rest =>
          by_cases hstale : isStale n.replica.state im.message = true
          · have htick : n.tick (env k) = { n with messageQueue := rest, pass := some true } := by
              simp [tick, hp, hq, hstale]
            have hnone : n.handles? = none := by simp [handles?, hp, hq, hstale]
            rw [htick] at hless ⊢
            rw [hnone]
            obtain ⟨hrun, hhandled⟩ := ih (n := { n with messageQueue := rest, pass := some true })
              (b := true) rfl (Nat.lt_succ_iff.mp (hless.trans_le hk))
              (by simpa [Idle, hq, hstale] using hidle)
            exact ⟨by simpa [hstale] using hrun, by simpa using hhandled⟩
          · have hwaits : n.replica.Waits im := hidle im (by simp [hq, hstale])
            rw [handles?_of_waits hq hwaits, tick_of_waits hp hq hwaits]
            rw [tick_of_waits hp hq hwaits] at hless
            cases b with
            | false =>
                rw [run_returned (by simp), trajectory_returned (by simp)]
                simp [hq, hstale]
            | true =>
                obtain ⟨hrun, hhandled⟩ := ih (n := { n with pass := some false }) (b := false) rfl
                  (by simpa using Nat.lt_succ_iff.mp (hless.trans_le hk)) hidle
                exact ⟨by simpa [hq, hstale] using hrun, by simpa using hhandled⟩

/-! ## Queues that are not idle -/

/-- Outside normal operation, a run that hands nothing to a handler leaves the
replica as it is. -/
theorem run_state_of_not_normal (hst : n.replica.state.status ≠ .normal)
    (hnil : (trajectory env k n).filterMap handles? = []) :
    (run env k n).replica.state = n.replica.state := by
  induction k generalizing n with
  | zero => rfl
  | succ k ih =>
      cases hp : n.pass with
      | none => rw [run_returned hp]
      | some b =>
          rw [trajectory_tick hp, List.append_eq_nil_iff] at hnil
          obtain ⟨hnone, hnil⟩ := hnil
          rw [run_tick hp]
          have htick : (n.tick (env k)).replica.state = n.replica.state := by
            unfold tick
            simp only [hp]
            split
            · rename_i hq; simp [endPass, reactToStuck, hq]
            · rename_i im rest hq
              split
              · rfl
              · rename_i hstale
                split
                · rename_i hcan; simp [handles?, hp, hq, hstale, hcan] at hnone
                · simp [endPass, reactToStuck, hq, hst]
          rw [ih (htick ▸ hst) hnil, htick]

theorem reactToStuck_status {e : Env} (hq : n.messageQueue = m :: q)
    (hst : n.replica.state.status = .normal)
    (haction : determineStateAction n.replica.state m.message ≠ .processNormally) :
    (n.reactToStuck e).replica.state.status ≠ .normal := by
  unfold reactToStuck
  rw [hq]
  cases h : determineStateAction n.replica.state m.message with
  | processNormally => exact absurd h haction
  | initiateViewChange =>
      simp [hst, h, initiateViewChange, ReplicaState.enterNewView, broadcastToPeers, emit]
  | initiateRecovery => simp [hst, h, initiateRecovery, broadcastToPeers, emit]

/-- What the loop leaves at the head when it returns in normal operation waits. -/
theorem waits_of_returned {e : Env} (hp : n.pass = some b) (hreturned : (n.tick e).pass = none)
    (hst : (n.tick e).replica.state.status = .normal) :
    ∀ im ∈ (n.tick e).messageQueue.head?, (n.tick e).replica.Waits im := by
  cases hq : n.messageQueue with
  | nil =>
      have hnil : (n.tick e).messageQueue = [] := by simp [tick, hp, hq, endPass, reactToStuck]
      rw [hnil]
      intro im him
      cases him
  | cons head rest =>
      have hstale : isStale n.replica.state head.message = false := by
        refine Bool.eq_false_iff.mpr fun hstale => ?_
        simp [tick, hp, hq, hstale] at hreturned
      have hcan : n.replica.canProcess head = false := by
        refine Bool.eq_false_iff.mpr fun hcan => ?_
        simp [tick, hp, hq, hstale, hcan] at hreturned
      have htick : n.tick e = n.endPass e b := by simp [tick, hp, hq, hstale, hcan]
      -- over any other message the replica would have left normal operation
      have hwaits : n.replica.Waits head := by
        refine ⟨hstale, hcan, fun hnormal => ?_⟩
        by_contra haction
        exact reactToStuck_status hq hnormal haction (htick ▸ hst)
      rw [tick_of_waits hp hq hwaits, hq]
      intro im him
      rw [← Option.some.inj him]
      exact hwaits

/-- A queue that is not idle has something handled, or the replica leaves
normal operation over it. -/
theorem run_of_not_idle (env : Nat → Env) (hp : n.pass = some b) (hk : n.turnsLeft ≤ k)
    (hnot : ¬Idle n.replica n.messageQueue)
    (hnil : (trajectory env k n).filterMap handles? = []) :
    n.replica.state.status = .normal ∧ (run env k n).replica.state.status ≠ .normal := by
  induction k generalizing n b with
  | zero => simp [turnsLeft, hp] at hk
  | succ k ih =>
      have hless := turnsLeft_tick (env k) (n := n) (by simp [hp])
      rw [trajectory_tick hp, List.append_eq_nil_iff] at hnil
      obtain ⟨hnone, hnil⟩ := hnil
      rw [run_tick hp]
      cases hq : n.messageQueue with
      | nil => exact absurd (by simp [Idle, hq]) hnot
      | cons im rest =>
          by_cases hstale : isStale n.replica.state im.message = true
          · have htick : n.tick (env k) = { n with messageQueue := rest, pass := some true } := by
              simp [tick, hp, hq, hstale]
            rw [htick] at hless hnil ⊢
            exact ih (n := { n with messageQueue := rest, pass := some true }) rfl
              (Nat.lt_succ_iff.mp (hless.trans_le hk)) (by simpa [Idle, hq, hstale] using hnot) hnil
          · have hcan : n.replica.canProcess im = false := by
              by_contra hcan
              simp [handles?, hp, hq, hstale, hcan] at hnone
            have hwaits : ¬n.replica.Waits im := fun hwaits =>
              hnot fun im' him' => by
                simp only [hq, hstale, Bool.false_eq_true, not_false_eq_true,
                  List.dropWhile_cons_of_neg, List.head?_cons, Option.mem_some_iff] at him'
                exact him' ▸ hwaits
            have hst : n.replica.state.status = .normal := by
              by_contra hst
              exact hwaits ⟨by simpa using hstale, hcan, fun h => absurd h hst⟩
            have haction : determineStateAction n.replica.state im.message ≠ .processNormally :=
              fun h => hwaits ⟨by simpa using hstale, hcan, fun _ => h⟩
            have hleft : (n.tick (env k)).replica.state.status ≠ .normal := by
              have htick : n.tick (env k) = n.endPass (env k) b := by
                simp [tick, hp, hq, hstale, hcan]
              rw [htick]
              exact reactToStuck_status hq hst haction
            exact ⟨hst, run_state_of_not_normal hleft hnil ▸ hleft⟩

end Node

/-! ## The head of the queue -/

open Node

/-- A waiting message keeps everything behind it from being handled. The rest
of the queue alone fares the same exactly if it is idle. -/
theorem waiting_head_blocks (env env' : Nat → Env) (n : Node) (m : InboundMessage)
    (hwaits : n.replica.Waits m) :
    let blocked : Node := { n with messageQueue := m :: n.messageQueue }
    blocked.processMessageQueue env = { blocked with pass := none } ∧ blocked.handled env = []
      ∧ ((blocked.handled env = n.handled env'
          ∧ (blocked.processMessageQueue env).replica.state
            = (n.processMessageQueue env').replica.state)
        ↔ Idle n.replica n.messageQueue) := by
  intro blocked
  have hidle : Idle n.replica (m :: n.messageQueue) := by
    intro im him
    simp only [hwaits.1, Bool.false_eq_true, not_false_eq_true, List.dropWhile_cons_of_neg,
      List.head?_cons, Option.mem_some_iff] at him
    exact him ▸ hwaits
  have hrun := run_of_idle env (n := { blocked with pass := some false }) rfl
    (Nat.le_refl _) hidle
  have hblocked : blocked.processMessageQueue env = { blocked with pass := none } := by
    rw [processMessageQueue, hrun.1]
    simp [blocked, hwaits.1]
  refine ⟨hblocked, hrun.2, ?_⟩
  rw [hblocked, show blocked.handled env = [] from hrun.2]
  constructor
  · rintro ⟨hhandled, hstate⟩
    by_contra hnot
    obtain ⟨hst, hleft⟩ := run_of_not_idle env' (n := { n with pass := some false }) rfl
      (Nat.le_refl _) hnot hhandled.symm
    exact hleft ((congrArg ReplicaState.status hstate).symm.trans hst)
  · intro hidle
    obtain ⟨hrun, hhandled⟩ := run_of_idle env' (n := { n with pass := some false }) rfl
      (Nat.le_refl _) hidle
    refine ⟨hhandled.symm, ?_⟩
    rw [processMessageQueue, hrun]

/-- A backup that has just started. -/
def freshBackup : Replica := { state := .new 1 (clusterOf 3) }

/-- A client's request, which only a primary can process. -/
def strayRequest : InboundMessage :=
  { connection := .client 7, message := { header := { command := .request, operation := .set } } }

/-- The first `Prepare` of view 0. -/
def firstPrepare : InboundMessage :=
  { connection := .peer 0
    message := { header := { command := .prepare, operation := .set, op := 1 } } }

theorem waiting_head_blocks_prepare :
    freshBackup.Waits strayRequest ∧ ¬Idle freshBackup [firstPrepare]
      ∧ ¬(handled (fun _ => {}) ⟨freshBackup, [strayRequest, firstPrepare], 0, none⟩
          = handled (fun _ => {}) ⟨freshBackup, [firstPrepare], 0, none⟩
        ∧ (processMessageQueue (fun _ => {})
            ⟨freshBackup, [strayRequest, firstPrepare], 0, none⟩).replica.state
          = (processMessageQueue (fun _ => {})
            ⟨freshBackup, [firstPrepare], 0, none⟩).replica.state) := by
  have hwaits : freshBackup.Waits strayRequest := by decide +kernel
  have hnot : ¬Idle freshBackup [firstPrepare] := fun hidle =>
    absurd (hidle firstPrepare (by decide +kernel)) (by decide +kernel)
  refine ⟨hwaits, hnot, fun h => hnot ?_⟩
  exact (waiting_head_blocks _ _ ⟨freshBackup, [firstPrepare], 0, none⟩ strayRequest
    hwaits).2.2.mp h

/-- A request that strayed to a backup waits throughout, and the `Prepare`
behind it, which would be logged, is not. -/
theorem waiting_request_blocks_prepare :
    (∀ n ∈ passedThrough (fun _ => {}) ⟨freshBackup, [firstPrepare], 0, none⟩,
        n.replica.Waits strayRequest)
      ∧ handled (fun _ => {}) ⟨freshBackup, [strayRequest, firstPrepare], 0, none⟩ = []
      ∧ handled (fun _ => {}) ⟨freshBackup, [firstPrepare], 0, none⟩ = [firstPrepare]
      ∧ (processMessageQueue (fun _ => {})
          ⟨freshBackup, [strayRequest, firstPrepare], 0, none⟩).replica.state.op = 0
      ∧ (processMessageQueue (fun _ => {})
          ⟨freshBackup, [firstPrepare], 0, none⟩).replica.state.op = 1 := by
  decide +kernel

/-! ## What the loop returns with -/

namespace Node

/-- The message at the head, if there is one, is neither stale nor processable. -/
def NothingToDo (n : Node) : Prop :=
  ∀ im ∈ n.messageQueue.head?,
    isStale n.replica.state im.message = false ∧ n.replica.canProcess im = false

instance (n : Node) : Decidable n.NothingToDo :=
  match h : n.messageQueue.head? with
  | none => isTrue fun im him => by rw [h] at him; cases him
  | some im =>
      decidable_of_iff
        (isStale n.replica.state im.message = false ∧ n.replica.canProcess im = false)
        (by simp [NothingToDo, h])

/-- A `NORMAL` replica whose queue begins with a message that makes it join the
next view, where it can process that very message. -/
def WakesHead (n : Node) : Prop :=
  n.replica.state.status = .normal ∧ ∃ im ∈ n.messageQueue.head?,
    determineStateAction n.replica.state im.message = .initiateViewChange
      ∧ (im.message.header.command = .startViewChange
        ∨ n.replica.state.getPrimaryIdForView (u32 (n.replica.state.view + 1))
          = some n.replica.state.id)

section

variable {env : Nat → Env} {e : Env} {n : Node} {k : Nat} {b : Bool} {m : InboundMessage}
  {q : List InboundMessage}

theorem determineStateAction_viewChange {s : ReplicaState} {msg : VsrMessage}
    (h : determineStateAction s msg = .initiateViewChange) :
    s.view < msg.header.view ∧ msg.header.view = u32 (s.view + 1)
      ∧ (msg.header.command = .startViewChange ∨ msg.header.command = .doViewChange) := by
  unfold determineStateAction at h
  simp only [] at h
  split at h
  · rename_i hlt
    split at h
    · rename_i hnext
      exact ⟨hlt, hnext⟩
    · cases h
  · split at h <;> cases h

/-- The message that makes a replica join the next view is one it keeps and
cannot process before. -/
theorem stuck_of_viewChange
    (haction : determineStateAction n.replica.state m.message = .initiateViewChange) :
    isStale n.replica.state m.message = false ∧ n.replica.canProcess m = false := by
  obtain ⟨hlt, -, hcmd⟩ := determineStateAction_viewChange haction
  have hne : m.message.header.view ≠ n.replica.state.view := by omega
  refine ⟨by simp [isStale, hlt.le], ?_⟩
  rcases hcmd with hcmd | hcmd
  · simp [canProcess, hcmd, checkCanProcessStartViewChange, hne]
  · simp [canProcess, hcmd, checkCanProcessDoViewChange, hne]

/-- After joining, the message is processable just if it is one for every
replica or this one is the new primary. -/
theorem initiateViewChange_head
    (haction : determineStateAction n.replica.state m.message = .initiateViewChange) :
    isStale n.replica.initiateViewChange.state m.message = false
      ∧ (n.replica.initiateViewChange.canProcess m = true
        ↔ m.message.header.command = .startViewChange
          ∨ n.replica.state.getPrimaryIdForView (u32 (n.replica.state.view + 1))
            = some n.replica.state.id) := by
  obtain ⟨-, hview, hcmd⟩ := determineStateAction_viewChange haction
  have hjoined : n.replica.initiateViewChange.state
      = n.replica.state.enterNewView (u32 (n.replica.state.view + 1)) := rfl
  refine ⟨by simp [isStale, hjoined, hview, ReplicaState.enterNewView], ?_⟩
  rcases hcmd with hcmd | hcmd
  · simp [canProcess, hcmd, checkCanProcessStartViewChange, hjoined, hview,
      ReplicaState.enterNewView]
  · simp [canProcess, hcmd, checkCanProcessDoViewChange, hjoined, hview,
      ReplicaState.enterNewView, ReplicaState.getPrimaryIdForView]

/-- What the reaction to a stuck message leaves at the head. -/
theorem nothingToDo_reactToStuck (hq : n.messageQueue = m :: q)
    (hstale : isStale n.replica.state m.message = false) (hcan : n.replica.canProcess m = false) :
    (n.reactToStuck e).NothingToDo ↔ ¬n.WakesHead := by
  have hkept : n.NothingToDo := fun im him => by
    rw [hq, List.head?_cons, Option.mem_some_iff] at him
    exact him ▸ ⟨hstale, hcan⟩
  unfold reactToStuck
  rw [hq]
  by_cases hst : n.replica.state.status = .normal
  · simp only [hst, if_true]
    cases haction : determineStateAction n.replica.state m.message with
    | processNormally => simp [hkept, WakesHead, hq, haction]
    | initiateRecovery => simp [NothingToDo, WakesHead, hq, haction]
    | initiateViewChange =>
        obtain ⟨hfresh, hjoined⟩ := initiateViewChange_head haction
        simp only [NothingToDo, WakesHead, hq, hst, haction, List.head?_cons, Option.mem_some_iff,
          forall_eq', exists_eq_left', true_and, hfresh, ← hjoined, Bool.not_eq_true]
  · simp [hst, hkept, WakesHead]

/-- The reaction leaves no message for the next one. -/
theorem not_wakesHead_reactToStuck : ¬(n.reactToStuck e).WakesHead := by
  intro h
  cases hq : n.messageQueue with
  | nil => simp [reactToStuck, hq, WakesHead] at h
  | cons m q =>
      by_cases hst : n.replica.state.status = .normal
      · cases haction : determineStateAction n.replica.state m.message with
        | processNormally => simp [reactToStuck, hq, hst, haction, WakesHead] at h
        | initiateViewChange =>
            exact reactToStuck_status (e := e) hq hst (by simp [haction]) h.1
        | initiateRecovery => exact reactToStuck_status (e := e) hq hst (by simp [haction]) h.1
      · simp [reactToStuck, hq, hst, WakesHead] at h

/-- A pass that has taken something off the queue is followed by another, so
only the first pass can leave work behind. -/
theorem run_nothingToDo (env : Nat → Env) (hp : n.pass = some b) (hk : n.turnsLeft ≤ k)
    (h : b = true ∨ ¬n.WakesHead) : (run env k n).NothingToDo := by
  induction k generalizing n b with
  | zero => simp [turnsLeft, hp] at hk
  | succ k ih =>
      have hless := turnsLeft_tick (env k) (n := n) (by simp [hp])
      rw [run_tick hp]
      -- the end of a pass: the last one, or one that is followed by another
      have hend : n.tick (env k) = n.endPass (env k) b →
          (b = false → (n.reactToStuck (env k)).NothingToDo) →
          (run env k (n.tick (env k))).NothingToDo := by
        intro htick hlast
        rw [htick] at hless ⊢
        cases b with
        | false =>
            rw [run_returned (by simp [endPass])]
            exact hlast rfl
        | true =>
            exact ih (n := n.endPass (env k) true) (b := false) (by simp [endPass])
              (Nat.lt_succ_iff.mp (hless.trans_le hk)) (Or.inr not_wakesHead_reactToStuck)
      cases hq : n.messageQueue with
      | nil =>
          refine hend (by simp [tick, hp, hq]) fun _ => ?_
          simp [reactToStuck, hq, NothingToDo]
      | cons m q =>
          by_cases hstale : isStale n.replica.state m.message = true
          · have htick : n.tick (env k) = { n with messageQueue := q, pass := some true } := by
              simp [tick, hp, hq, hstale]
            rw [htick] at hless ⊢
            exact ih rfl (Nat.lt_succ_iff.mp (hless.trans_le hk)) (Or.inl rfl)
          · by_cases hcan : n.replica.canProcess m = true
            · have htick : n.tick (env k) = { n with
                  replica := dispatch (env k) n.replica m
                  messageQueue := q
                  pass := some true } := by
                simp [tick, hp, hq, hstale, hcan]
              rw [htick] at hless ⊢
              exact ih rfl (Nat.lt_succ_iff.mp (hless.trans_le hk)) (Or.inl rfl)
            · simp only [Bool.not_eq_true] at hstale hcan
              refine hend (by simp [tick, hp, hq, hstale, hcan]) fun hb => ?_
              exact (nothingToDo_reactToStuck hq hstale hcan).mpr (h.resolve_left (by simp [hb]))

end

end Node

open Node

/-- `process_message_queue` returns with nothing left to do, unless the very
first message it looks at is the one that makes the replica change view. -/
theorem returns_with_nothing_to_do_iff (env : Nat → Env) (n : Node) :
    (n.processMessageQueue env).NothingToDo ↔ ¬n.WakesHead := by
  constructor
  · intro h hwakes
    obtain ⟨hst, m, hm, haction, hcmd⟩ := hwakes
    obtain ⟨q, hq⟩ : ∃ q, n.messageQueue = m :: q := List.head?_eq_some_iff.mp hm
    obtain ⟨hstale, hcan⟩ := stuck_of_viewChange haction
    -- nothing was taken off the queue, so the reaction is the last thing that happens
    have hrun : (n.processMessageQueue env) = { (reactToStuck (env (2 * (q.length + 1)))
        { n with pass := some false }) with pass := none } := by
      rw [processMessageQueue]
      simp only [turnsLeft, hq, List.length_cons, Bool.toNat_false, Nat.add_zero]
      rw [run_tick rfl, run_returned] <;> simp [tick, hstale, hcan, endPass]
    rw [hrun] at h
    exact (nothingToDo_reactToStuck (n := { n with pass := some false }) hq hstale hcan).mp h
      ⟨hst, m, hm, haction, hcmd⟩
  · intro h
    exact run_nothingToDo env (n := { n with pass := some false }) rfl (Nat.le_refl _) (Or.inr h)

/-- The `StartViewChange` of replica 2 for view 1. -/
def nextStartViewChange : InboundMessage :=
  { connection := .peer 2
    message := { header := { command := .startViewChange, view := 1, replica := 2 } } }

/-- A backup joins view 1 over the only message in its queue, and returns with
the message, which it can now process, still at the head. -/
theorem joins_and_leaves_startViewChange :
    let n := processMessageQueue (fun _ => {}) ⟨freshBackup, [nextStartViewChange], 1, none⟩
    n.replica.state.view = 1 ∧ n.replica.state.status = .viewChange
      ∧ n.messageQueue = [nextStartViewChange] ∧ n.replica.canProcess nextStartViewChange = true
      ∧ ¬n.NothingToDo := by
  decide +kernel

end VsrKv
