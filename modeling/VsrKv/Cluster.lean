import Mathlib.Logic.Function.Basic
import VsrKv.MessageQueue
import VsrKv.TransitionSystem

/-!
# A cluster of replicas

Replicas are separate processes that share nothing but the network. The
network is a bag of packets: it may deliver them in any order, lose
them, and, where a run allows it, duplicate them. A client talks to any
replica it likes over a connection of its own.

The granularity of a step is one turn of a replica's queue loop, so
states in the middle of `process_message_queue` are states of the run
too. While a replica is in that function it takes no input and none of
its timers fire, since all of these run on its one loop thread.

`trace` is the record of what the replicas have done, oldest first. The
program keeps no such record; the properties do, because they speak
about what was sent, executed or answered at any earlier time.
-/

namespace VsrKv

open TransitionSystem

/-- A message on its way to a replica, with the connection it arrives on. -/
structure Packet where
  dst : Nat
  inbound : InboundMessage
deriving DecidableEq

structure Cluster where
  size : Nat
  nodes : Nat → Node
  net : List Packet := []
  trace : List (Nat × Effect) := []

/-- The events of a run. Packets are named by their place in `net`; `start`
is the loop beginning a posted run of the queue, `tick` one turn of it, and
`timeout` the liveness timer finding the primary timeout expired. -/
inductive Event where
  | client (i fd : Nat) (msg : VsrMessage)
  | deliver (k : Nat)
  | drop (k : Nat)
  | duplicate (k : Nat)
  | start (i : Nat)
  | tick (i : Nat) (env : Env)
  | heartbeat (i : Nat)
  | timeout (i : Nat)
  | restart (i : Nat)

/-- The packets an effect of `src` puts on the network. `send_to_peer` and
`broadcast_to_peers` know the configured peers only, and never the sender;
what goes to a client leaves the cluster. -/
def Effect.packets (src : Nat) (peers : List Nat) : Effect → List Packet
  | .toPeer id msg => if id ∈ peers then [⟨id, .peer src, msg⟩] else []
  | .broadcast msg => peers.map fun id => ⟨id, .peer src, msg⟩
  | .toConnection (.peer id) msg => [⟨id, .peer src, msg⟩]
  | _ => []

/-- What clients send: requests and pings that fit a frame, whose header
and payload together have a 32-bit length. -/
def isClientMessage (msg : VsrMessage) : Bool :=
  (msg.header.command == .request || msg.header.command == .ping)
    && decide (msg.header.request < 2 ^ 32) && decide (128 + msg.payload.length < 2 ^ 32)

theorem command_of_client {m : VsrMessage} (h : isClientMessage m = true) :
    m.header.command = .request ∨ m.header.command = .ping := by
  simp only [isClientMessage, Bool.and_eq_true, Bool.or_eq_true, beq_iff_eq] at h
  exact h.1.1

namespace Cluster

def freshNode (i n : Nat) : Node := { replica := { state := .new i (clusterOf n) } }

def init (n : Nat) : Cluster where
  size := n
  nodes i := freshNode i n

def setNode (c : Cluster) (i : Nat) (n : Node) : Cluster :=
  { c with nodes := Function.update c.nodes i n }

def peers (s : ReplicaState) : List Nat := s.clusterConfig.keys.filter (· ≠ s.id)

/-- Store a node that has just run, and hand its output to the network. -/
def put (c : Cluster) (i : Nat) (n : Node) : Cluster :=
  { c with
    nodes := Function.update c.nodes i { n with replica := { n.replica with out := [] } }
    net := c.net ++ n.replica.out.flatMap (Effect.packets i (peers n.replica.state))
    trace := c.trace ++ n.replica.out.map (i, ·) }

def step (c : Cluster) : Event → Option Cluster
  | .client i fd msg =>
      let n := c.nodes i
      if i < c.size ∧ n.pass = none ∧ isClientMessage msg then
        some (c.setNode i (n.enqueueMessage ⟨.client fd, msg⟩))
      else none
  | .deliver k => do
      let p ← c.net[k]?
      let n := c.nodes p.dst
      if p.dst < c.size ∧ n.pass = none then
        some { c.setNode p.dst (n.enqueueMessage p.inbound) with net := c.net.eraseIdx k }
      else none
  | .drop k => do
      let _ ← c.net[k]?
      some { c with net := c.net.eraseIdx k }
  | .duplicate k => do
      let p ← c.net[k]?
      some { c with net := c.net ++ [p] }
  | .start i =>
      let n := c.nodes i
      if i < c.size ∧ n.pass = none ∧ 0 < n.posted then
        some (c.setNode i { n with pass := some false, posted := n.posted - 1 })
      else none
  | .tick i env =>
      let n := c.nodes i
      if i < c.size ∧ n.pass ≠ none then some (c.put i (n.tick env)) else none
  | .heartbeat i =>
      let n := c.nodes i
      if i < c.size ∧ n.pass = none then
        some (c.put i { n with replica := n.replica.sendCommitMessageIfNeeded })
      else none
  | .timeout i =>
      let n := c.nodes i
      if i < c.size ∧ n.pass = none then
        some (c.put i { n with replica := n.replica.checkPrimaryLiveness })
      else none
  | .restart i =>
      -- The process dies with its memory and whatever was still on its sockets.
      if i < c.size then
        some { c.setNode i (freshNode i c.size) with net := c.net.filter (·.dst ≠ i) }
      else none

/-- A run of the cluster whose steps all meet `ok`. -/
abbrev Run (ok : Cluster → Event → Cluster → Prop) : Cluster → Cluster → Prop := Steps step ok

def state (c : Cluster) (i : Nat) : ReplicaState := (c.nodes i).replica.state

def queue (c : Cluster) (i : Nat) : List InboundMessage := (c.nodes i).messageQueue

end Cluster

end VsrKv
