import VsrKv.ClusterStep

/-!
# What runs are assumed to keep to

Conditions on a step that the results about runs share. They speak about
the state before the step, the event and the state after, and all of
them can be decided, so a concrete run can be checked against them.

Field widths are one of them. Views stay below `2^32 - 1`, where the
next view would wrap. Op numbers start at 1 and the counter is 64 bits
wide, so it has wrapped once some log has an entry at 0.
-/

namespace VsrKv

open Replica

/-- The nonce a recovery request announces. -/
def VsrMessage.nonce? (m : VsrMessage) : Option UInt128 :=
  if m.header.command = .recovery then
    (RecoveryRequestPayload.deserialize m.payload).map (·.nonce)
  else none

def Effect.nonce? (eff : Effect) : Option UInt128 := eff.message?.bind VsrMessage.nonce?

/-- The op number and the entry an effect says were executed. -/
def Effect.executed? : Effect → Option (Nat × LogEntry)
  | .executed _ n e _ => some (n, e.strip)
  | _ => none

def Event.isDuplicate : Event → Bool
  | .duplicate _ => true
  | _ => false

/-- The replica the event restarts. -/
def Event.restarted? : Event → Option Nat
  | .restart i => some i
  | _ => none

/-- A replica that has logged nothing and never left its first view. -/
def ReplicaState.Pristine (s : ReplicaState) : Prop := s.view = 0 ∧ s.op = 0

instance (s : ReplicaState) : Decidable s.Pristine := inferInstanceAs (Decidable (_ ∧ _))

/-- The replica whose queue loop makes a turn. -/
def Event.ticked? : Event → Option Nat
  | .tick i _ => some i
  | _ => none

namespace Cluster

/-- The nonces announced so far. -/
def nonces (c : Cluster) : List UInt128 := c.trace.filterMap (·.2.nonce?)

/-- No view is about to wrap, and no op number has. -/
def InRange (c : Cluster) : Prop :=
  ∀ i < c.size, (c.state i).view + 1 < 2 ^ 32 ∧ 0 ∉ (c.state i).log

instance (c : Cluster) : Decidable c.InRange :=
  inferInstanceAs (Decidable (∀ i < c.size, _ ∧ _))

/-- A replica that enters recovery does so under a nonce not used before. -/
def FreshNonces (c c' : Cluster) : Prop :=
  ∀ i < c.size, (c.state i).status ≠ .recovery → (c'.state i).status = .recovery →
    (c'.state i).recoveryNonce ∉ c.nonces

instance (c c' : Cluster) : Decidable (c.FreshNonces c') :=
  inferInstanceAs (Decidable (∀ i < c.size, _ → _ → _))

/-- A step of an ordinary run: no message is delivered twice, nonces are
unique, no counter wraps, and a replica restarts only where it loses
nothing. -/
structure Admissible (c : Cluster) (ev : Event) (c' : Cluster) : Prop where
  once : ev.isDuplicate = false
  restart : ∀ i ∈ ev.restarted?, (c.state i).Pristine
  nonces : c.FreshNonces c'
  range : c'.InRange

instance (c : Cluster) (ev : Event) (c' : Cluster) : Decidable (Admissible c ev c') :=
  decidable_of_iff
    (ev.isDuplicate = false ∧ (∀ i ∈ ev.restarted?, (c.state i).Pristine)
      ∧ c.FreshNonces c' ∧ c'.InRange)
    ⟨fun ⟨h₁, h₂, h₃, h₄⟩ => ⟨h₁, h₂, h₃, h₄⟩, fun ⟨h₁, h₂, h₃, h₄⟩ => ⟨h₁, h₂, h₃, h₄⟩⟩

theorem inRange_init (n : Nat) : (init n).InRange := by
  intro i _
  simp [state, init, freshNode, ReplicaState.new]

theorem Sent.mem_nonces {c : Cluster} {k : Nat} {m : VsrMessage} {x : UInt128}
    (h : c.Sent k m) (hx : m.nonce? = some x) : x ∈ c.nonces := by
  obtain ⟨eff, heff, hm⟩ := h
  exact List.mem_filterMap.mpr ⟨(k, eff), heff, by simp [Effect.nonce?, hm, hx]⟩

instance (c : Cluster) (i : Nat) (m : VsrMessage) : Decidable (c.Sent i m) :=
  decidable_of_iff (∃ x ∈ c.trace, x.1 = i ∧ x.2.message? = some m)
    ⟨fun ⟨(_, eff), hmem, rfl, hm⟩ => ⟨eff, hmem, hm⟩,
      fun ⟨eff, hmem, hm⟩ => ⟨(i, eff), hmem, rfl, hm⟩⟩

/-- What `i` has done, oldest first. -/
def history (c : Cluster) (i : Nat) : List Effect :=
  (c.trace.filter (·.1 == i)).map (·.2)

theorem history_append {c c' : Cluster} {i : Nat} {effs : List Effect}
    (h : c'.trace = c.trace ++ effs.map (i, ·)) (j : Nat) :
    c'.history j = if j = i then c.history j ++ effs else c.history j := by
  rw [Cluster.history, h, List.filter_append, List.map_append]
  by_cases hj : j = i
  · subst hj
    have hall : (effs.map (j, ·)).filter (·.1 == j) = effs.map (j, ·) :=
      List.filter_eq_self.mpr fun x hx => by
        obtain ⟨eff, -, rfl⟩ := List.mem_map.mp hx
        exact beq_self_eq_true j
    rw [if_pos rfl, hall, List.map_map]
    exact congrArg (_ ++ ·) (List.map_id effs)
  · have hnone : (effs.map (i, ·)).filter (·.1 == j) = [] :=
      List.filter_eq_nil_iff.mpr fun x hx => by
        obtain ⟨eff, -, rfl⟩ := List.mem_map.mp hx
        exact fun heq => hj (eq_of_beq heq).symm
    rw [if_neg hj, hnone, List.map_nil, List.append_nil]
    rfl

theorem Local.history {c c' : Cluster} {i : Nat} {s' : ReplicaState} {q' : List InboundMessage}
    {effs : List Effect} (h : Local c c' i s' q' effs) (j : Nat) :
    c'.history j = if j = i then c.history j ++ effs else c.history j :=
  history_append h.trace j

/-- What each replica has executed, oldest first. -/
def executions (c : Cluster) : List (Nat × Nat × LogEntry) :=
  c.trace.filterMap fun p => p.2.executed?.map (p.1, ·)

theorem exists_of_mem_executions {c : Cluster} {i n : Nat} {e : LogEntry}
    (h : (i, n, e) ∈ c.executions) :
    ∃ v e' res, (i, Effect.executed v n e' res) ∈ c.trace ∧ e'.strip = e := by
  obtain ⟨⟨j, eff⟩, hmem, heff⟩ := List.mem_filterMap.mp h
  cases eff with
  | executed v m e' res =>
      simp only [Effect.executed?, Option.map_some, Option.some.injEq, Prod.mk.injEq] at heff
      obtain ⟨rfl, rfl, rfl⟩ := heff
      exact ⟨v, e', res, hmem, rfl⟩
  | _ => simp [Effect.executed?] at heff

end Cluster

/-! ## Writing down a run -/

namespace Event

/-- A posted run of `i`'s queue begins and makes `k` turns. -/
def process (i k : Nat) : List Event := .start i :: List.replicate k (.tick i {})

/-- Packet `k` of the network arrives at `i`, which runs its queue until it is
empty or stuck. -/
def receive (k i : Nat) : List Event := .deliver k :: process i 3

/-- A client's request arrives at `i`, which runs its queue. -/
def request (i fd : Nat) (msg : VsrMessage) : List Event := .client i fd msg :: process i 3

end Event

def setRequest (client : UInt64) (request : Nat) (payload : Bytes) : VsrMessage where
  header :=
    { command := .request, operation := .set, client := { low := client }, request := request }
  payload := payload

end VsrKv
