import VsrKv.Replica

/-!
# The message queue

`Replica::process_message_queue` as a small-step machine. The function
is two nested loops over one deque; its control state is nothing but
the flag `processed_in_pass`, so a node carries that flag while the
function is running (`pass := some flag`) and `none` while it is not.
`tick` is one turn of the inner loop or the code after it.

`processMessageQueue` runs the machine until it returns. A turn that
keeps going either takes a message off the queue or clears the flag, so
twice the queue's length and one more turn for each flag value is
always enough (`processMessageQueue_pass`).
-/

namespace VsrKv

structure Node where
  replica : Replica
  messageQueue : List InboundMessage := []
  /-- Runs of `process_message_queue` posted to the loop and not begun. -/
  posted : Nat := 0
  pass : Option Bool := none

namespace Node

/-- A server message from a view that is over. -/
def isStale (s : ReplicaState) (msg : VsrMessage) : Bool :=
  msg.header.command != .request && msg.header.command != .recovery
    && decide (msg.header.view < s.view)

/-- The `switch` on the command of a message that can be processed. -/
def dispatch (env : Env) (r : Replica) (inbound : InboundMessage) : Replica :=
  match inbound.message.header.command with
  | .ping => r.handlePing inbound
  | .request => r.handleRequest inbound
  | .prepare => r.handlePrepare inbound
  | .prepareOk => r.handlePrepareOk inbound
  | .commit => r.handleCommit inbound
  | .startViewChange => r.handleStartViewChange env inbound
  | .doViewChange => r.handleDoViewChange env inbound
  | .startView => r.handleStartView inbound
  | .recovery => r.handleRecoveryRequest inbound
  | .recoveryResponse => r.handleRecoveryResponse inbound
  | _ => r

/-- React to the message the inner loop stopped at. -/
def reactToStuck (env : Env) (n : Node) : Node :=
  match n.messageQueue with
  | [] => n
  | stuck :: _ =>
      if n.replica.state.status = .normal then
        match Replica.determineStateAction n.replica.state stuck.message with
        | .initiateRecovery =>
            { n with replica := n.replica.initiateRecovery env, messageQueue := [] }
        | .initiateViewChange => { n with replica := n.replica.initiateViewChange }
        | .processNormally => n
      else n

/-- The code after the inner loop: react, then go around again if this pass
took something off the queue. -/
def endPass (env : Env) (n : Node) (processedInPass : Bool) : Node :=
  { n.reactToStuck env with pass := if processedInPass then some false else none }

def tick (env : Env) (n : Node) : Node :=
  match n.pass with
  | none => n
  | some processedInPass =>
      match n.messageQueue with
      | [] => n.endPass env processedInPass
      | inbound :: rest =>
          if isStale n.replica.state inbound.message then
            { n with messageQueue := rest, pass := some true }
          else if n.replica.canProcess inbound then
            { n with replica := dispatch env n.replica inbound, messageQueue := rest,
                     pass := some true }
          else n.endPass env processedInPass

/-- `enqueue_message`: append, and post a run of the queue. -/
def enqueueMessage (n : Node) (inbound : InboundMessage) : Node :=
  { n with messageQueue := n.messageQueue ++ [inbound], posted := n.posted + 1 }

/-- Run the machine for at most `fuel` turns; `env k` is what the
environment supplies when `k` turns are left. -/
def run (env : Nat → Env) : Nat → Node → Node
  | 0, n => n
  | k + 1, n => if n.pass.isNone then n else run env k (n.tick (env k))

/-- Turns the machine can still make. -/
def turnsLeft (n : Node) : Nat :=
  match n.pass with
  | none => 0
  | some processedInPass => 2 * n.messageQueue.length + processedInPass.toNat + 1

def processMessageQueue (env : Nat → Env) (n : Node) : Node :=
  let n := { n with pass := some false }
  run env n.turnsLeft n

/-! ## The queue machine returns -/

theorem reactToStuck_length_le (env : Env) (n : Node) :
    (n.reactToStuck env).messageQueue.length ≤ n.messageQueue.length := by
  unfold reactToStuck
  split
  · exact Nat.le_refl _
  · split
    · split <;> simp
    · exact Nat.le_refl _

theorem turnsLeft_endPass {env : Env} {n : Node} {b : Bool} (h : n.pass = some b) :
    (n.endPass env b).turnsLeft < n.turnsLeft := by
  have hlen := reactToStuck_length_le env n
  cases b with
  | true =>
      simp only [turnsLeft, endPass, h, if_true, Bool.toNat_true, Bool.toNat_false]
      omega
  | false => simp [turnsLeft, endPass, h]

theorem turnsLeft_tick (env : Env) {n : Node} (h : n.pass ≠ none) :
    (n.tick env).turnsLeft < n.turnsLeft := by
  obtain ⟨b, hb⟩ := Option.ne_none_iff_exists'.mp h
  unfold tick
  simp only [hb]
  split
  · exact turnsLeft_endPass hb
  · rename_i inbound rest hq
    split
    · simp only [turnsLeft, hb, hq, List.length_cons, Bool.toNat_true]
      omega
    · split
      · simp only [turnsLeft, hb, hq, List.length_cons, Bool.toNat_true]
        omega
      · exact turnsLeft_endPass hb

theorem run_pass (env : Nat → Env) {k : Nat} {n : Node} (h : n.turnsLeft ≤ k) :
    (run env k n).pass = none := by
  induction k generalizing n with
  | zero =>
      cases hp : n.pass with
      | none => simp [run, hp]
      | some b => simp [turnsLeft, hp] at h
  | succ k ih =>
      cases hp : n.pass with
      | none => simp [run, hp]
      | some b =>
          simp only [run, hp, Option.isNone_some, Bool.false_eq_true, if_false]
          have := turnsLeft_tick (env k) (n := n) (by simp [hp])
          exact ih (by omega)

/-- `process_message_queue` returns, whatever is queued. -/
theorem processMessageQueue_pass (env : Nat → Env) (n : Node) :
    (n.processMessageQueue env).pass = none :=
  run_pass env (Nat.le_refl _)

end Node

end VsrKv
