import VsrKv.Discipline
import VsrKv.EventLoop

/-!
# A replica on its event loop

The steps of a replica have been taken to be messages that arrive, timers
that fire and turns of `process_message_queue`, one at a time. Here they
are put back where they happen. A message arrives and a timer fires in
the callback of a completion; `enqueue_message` posts a run of the queue,
which begins when the loop gets to it; and the thread is in one of these
at a time. What comes out is the replica as before, with the runs that
are posted counted on the loop's queue (`replica_loop_refines_node`).
-/

namespace VsrKv

open TransitionSystem

/-- What is posted to a replica's loop: runs of its queue, and work that starts I/O. -/
inductive Task where
  | processMessageQueue
  | io (n : Nat)
deriving DecidableEq

/-- The node's own count of posted runs is not used. -/
structure ReplicaLoop where
  loop : IoUringLoop Task
  node : Node

inductive LoopInput where
  | enqueue (inbound : InboundMessage)
  | heartbeat
  | timeout
  | tick (env : Env)
  | loop (e : LoopEvent Task)

namespace ReplicaLoop

/-- The loop thread goes on from a piece of work when that has returned. -/
def returned (s : ReplicaLoop) (e : LoopEvent Task) : Prop :=
  e = .work ∨ e = .workDone → s.node.pass = none

instance (s : ReplicaLoop) (e : LoopEvent Task) : Decidable (s.returned e) :=
  inferInstanceAs (Decidable (_ → _))

/-- The node once the loop has made step `e`. -/
def nodeAfter (s : ReplicaLoop) (e : LoopEvent Task) : Node :=
  if e = .work ∧ s.loop.currentWork.head? = some .processMessageQueue then
    { s.node with pass := some false }
  else s.node

def step (s : ReplicaLoop) : LoopInput → Option ReplicaLoop
  | .enqueue inbound =>
      if s.loop.phase = .completing ∧ inbound.message.header.InRange then
        (s.loop.step (.push .processMessageQueue)).map fun loop =>
          { loop, node := { s.node with messageQueue := s.node.messageQueue ++ [inbound] } }
      else none
  | .heartbeat =>
      if s.loop.phase = .completing then
        some { s with
          node := .flush { s.node with replica := s.node.replica.sendCommitMessageIfNeeded } }
      else none
  | .timeout =>
      if s.loop.phase = .completing then
        some { s with
          node := .flush { s.node with replica := s.node.replica.checkPrimaryLiveness } }
      else none
  | .tick env =>
      if s.node.pass ≠ none then some { s with node := (s.node.tick env).flush } else none
  | .loop e =>
      if e ≠ .push .processMessageQueue ∧ s.returned e then
        (s.loop.step e).map fun loop => { loop, node := s.nodeAfter e }
      else none

/-- The runs of the queue that are posted and have not begun. -/
def runs (s : ReplicaLoop) : Nat := s.loop.queued.count .processMessageQueue

/-- The replica with its posted runs counted. -/
def abs (s : ReplicaLoop) : Node := { s.node with posted := s.runs }

end ReplicaLoop

namespace Node

theorem reactToStuck_posted (env : Env) (n : Node) (k : Nat) :
    reactToStuck env { n with posted := k } = { n.reactToStuck env with posted := k } := by
  obtain ⟨r, queue, posted, pass⟩ := n
  unfold reactToStuck
  cases queue with
  | nil => rfl
  | cons stuck rest =>
      simp only []
      split
      · split <;> rfl
      · rfl

theorem tick_posted (env : Env) (n : Node) (k : Nat) :
    tick env { n with posted := k } = { n.tick env with posted := k } := by
  obtain ⟨r, queue, posted, pass⟩ := n
  have hend : ∀ b, endPass env ⟨r, queue, k, pass⟩ b
      = { endPass env ⟨r, queue, posted, pass⟩ b with posted := k } := by
    intro b
    have hreact := reactToStuck_posted env ⟨r, queue, posted, pass⟩ k
    simp only [] at hreact
    rw [endPass, endPass, hreact]
  unfold tick
  cases pass with
  | none => rfl
  | some b =>
      cases queue with
      | nil => exact hend b
      | cons inbound rest =>
          simp only []
          split
          · rfl
          · split
            · rfl
            · exact hend b

end Node

namespace ReplicaLoop

variable {s s' : ReplicaLoop} {inp : LoopInput}

/-- What a run of the loop keeps to. -/
structure Sound (s : ReplicaLoop) : Prop where
  loop : s.loop.Sound
  oneAtATime : s.node.pass ≠ none → s.loop.phase = .working
  out : s.node.replica.out = []

theorem abs_step (h : Sound s) (hstep : s.step inp = some s') :
    s'.abs = s.abs ∨ ∃ inp', s.abs.step inp' = some s'.abs := by
  have hidle : s.loop.phase = .completing → s.node.pass = none := by
    intro hphase
    by_contra hpass
    simp [h.oneAtATime hpass] at hphase
  cases inp with
  | enqueue inbound =>
      simp only [step, Option.ite_none_right_eq_some, Option.map_eq_some_iff] at hstep
      obtain ⟨⟨hphase, hrange⟩, loop, hpush, rfl⟩ := hstep
      refine Or.inr ⟨.enqueue inbound, ?_⟩
      have hruns : loop.queued = s.loop.queued ++ [.processMessageQueue] := by
        rcases h.loop.queued hpush with ⟨work, hwork, hq⟩ | ⟨_, _, hwork, -⟩ | ⟨hwork, -⟩
        · obtain rfl := LoopEvent.push.inj hwork
          exact hq
        · cases hwork
        · exact absurd rfl (hwork _)
      simp [Node.step, abs, hidle hphase, hrange, Node.enqueueMessage, runs, hruns]
  | heartbeat =>
      simp only [step, Option.ite_none_right_eq_some, Option.some.injEq] at hstep
      obtain ⟨hphase, rfl⟩ := hstep
      exact Or.inr ⟨.heartbeat, by simp [Node.step, abs, hidle hphase, Node.flush, runs]⟩
  | timeout =>
      simp only [step, Option.ite_none_right_eq_some, Option.some.injEq] at hstep
      obtain ⟨hphase, rfl⟩ := hstep
      exact Or.inr ⟨.timeout, by simp [Node.step, abs, hidle hphase, Node.flush, runs]⟩
  | tick env =>
      simp only [step, Option.ite_none_right_eq_some, Option.some.injEq] at hstep
      obtain ⟨hpass, rfl⟩ := hstep
      refine Or.inr ⟨.tick env, ?_⟩
      simp [Node.step, abs, hpass, Node.tick_posted, Node.flush, runs]
  | loop e =>
      simp only [step, Option.ite_none_right_eq_some, Option.map_eq_some_iff] at hstep
      obtain ⟨⟨hpush, hreturned⟩, loop, hloop, rfl⟩ := hstep
      rcases h.loop.queued hloop with ⟨work, rfl, hq⟩ | ⟨work, rest, rfl, hcurrent, hq⟩
        | ⟨-, hwork, hq⟩
      · refine Or.inl ?_
        have hne : work ≠ .processMessageQueue := fun heq => hpush (by rw [heq])
        simp [abs, nodeAfter, runs, hq, List.count_append, hne]
      · by_cases htask : work = .processMessageQueue
        · subst htask
          refine Or.inr ⟨.start, ?_⟩
          simp [Node.step, abs, nodeAfter, runs, hq, hcurrent, hreturned (Or.inl rfl)]
        · refine Or.inl ?_
          simp [abs, nodeAfter, runs, hq, hcurrent, htask]
      · exact Or.inl (by simp [abs, nodeAfter, runs, hq, hwork])

theorem Sound.step (h : Sound s) (hstep : s.step inp = some s') : Sound s' := by
  cases inp with
  | enqueue inbound =>
      simp only [ReplicaLoop.step, Option.ite_none_right_eq_some, Option.map_eq_some_iff] at hstep
      obtain ⟨⟨hphase, -⟩, loop, hpush, rfl⟩ := hstep
      refine ⟨h.loop.step hpush, fun hpass => ?_, h.out⟩
      exact IoUringLoop.step_working hpush (h.oneAtATime hpass) (by simp)
  | heartbeat | timeout =>
      simp only [ReplicaLoop.step, Option.ite_none_right_eq_some, Option.some.injEq] at hstep
      obtain ⟨-, rfl⟩ := hstep
      exact ⟨h.loop, h.oneAtATime, rfl⟩
  | tick env =>
      simp only [ReplicaLoop.step, Option.ite_none_right_eq_some, Option.some.injEq] at hstep
      obtain ⟨hpass, rfl⟩ := hstep
      exact ⟨h.loop, fun _ => h.oneAtATime hpass, rfl⟩
  | loop e =>
      simp only [ReplicaLoop.step, Option.ite_none_right_eq_some, Option.map_eq_some_iff] at hstep
      obtain ⟨⟨-, hreturned⟩, loop, hloop, rfl⟩ := hstep
      refine ⟨h.loop.step hloop, fun hpass => ?_, ?_⟩
      · by_cases he : e = .work
        · subst he
          have hwork := (IoUringLoop.step_eq_some.mp hloop).2
          simp only [IoUringLoop.advance, Option.ite_none_right_eq_some] at hwork
          exact IoUringLoop.step_working hloop hwork.1 (by simp)
        · have hpass' : s.node.pass ≠ none := by simpa [nodeAfter, he] using hpass
          exact IoUringLoop.step_working hloop (h.oneAtATime hpass')
            fun heq => hpass' (hreturned (Or.inr heq))
      · rw [nodeAfter]
        split
        · exact h.out
        · exact h.out

def boot (id : Nat) (config : List PeerConfig) : ReplicaLoop :=
  { loop := {}, node := .boot id config }

/-- Every run of a replica on its loop, with posts and completions in whatever order they
come, is a run of the replica that handles one input at a time; and its posted runs are
those on the loop's queue. -/
theorem replica_loop_refines_node {ok : ReplicaLoop → LoopInput → ReplicaLoop → Prop} {id : Nat}
    {config : List PeerConfig} (run : Steps step ok (boot id config) s) :
    Steps Node.step (fun _ _ _ => True) (.boot id config) s.abs
      ∧ (s.node.pass ≠ none → s.loop.phase = .working) := by
  have hboth : Sound s ∧ Steps Node.step (fun _ _ _ => True) (.boot id config) s.abs := by
    refine run.invariant (I := fun s =>
      Sound s ∧ Steps Node.step (fun _ _ _ => True) (.boot id config) s.abs)
      ⟨⟨IoUringLoop.sound_init, fun h => absurd rfl h, rfl⟩, .refl _⟩ ?_
    rintro u inp v - hstep - ⟨hsound, hrun⟩
    refine ⟨hsound.step hstep, ?_⟩
    rcases abs_step hsound hstep with habs | ⟨inp', hnode⟩
    · rw [habs]
      exact hrun
    · exact .tail hrun hnode trivial
  exact ⟨hboth.2, hboth.1.oneAtATime⟩

/-- A `Ping` arrives, and the replica is in the middle of answering it when another read
of the eventfd completes. -/
def pinged : List LoopInput :=
  [.loop .run, .loop .submit, .loop (.ioDone .read), .loop .wake, .loop .workDone,
    .enqueue ⟨.client 7, { header := { command := .ping } }⟩, .loop .write, .loop .complete,
    .loop .eventFdRead, .loop .complete, .loop .loopAround, .loop .submit, .loop .eventFdAgain,
    .loop .wake, .loop .work, .tick {}]

theorem replica_loop_refines_node_pinged :
    ∃ s : ReplicaLoop, s.node.pass ≠ none ∧ s.loop.ran = [.processMessageQueue]
      ∧ Steps Node.step (fun _ _ _ => True) (.boot 0 (clusterOf 3)) s.abs
      ∧ (s.node.pass ≠ none → s.loop.phase = .working) := by
  obtain ⟨s, run, hpass, hran⟩ := exists_of_replay step (fun _ _ _ => True)
    (boot 0 (clusterOf 3)) pinged
    (P := fun s : ReplicaLoop => s.node.pass ≠ none ∧ s.loop.ran = [.processMessageQueue])
    (by decide +kernel)
  exact ⟨s, hpass, hran, replica_loop_refines_node run⟩

end ReplicaLoop

end VsrKv
