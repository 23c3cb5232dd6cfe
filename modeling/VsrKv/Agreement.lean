import VsrKv.Simulation

/-!
# Replicas agree on what they execute

An executed entry is committed, and what is committed is in the base of
every later view. So no two replicas execute different entries at one op
number, and a replica that is in normal operation in a later view has
whatever was executed in an earlier one.

This rests on promises being kept, and recovery is where the program may
break one: a replica that comes back in the view it left adopts the best
of the responses it happened to get. The results differ in how they rule
that out. With view changes only there is nothing to rule out; in a
cluster of three the responses are all there are; in general one has to
ask for it (`RecoveryCovers`).
-/

namespace VsrKv

open Replica Viewstamped TransitionSystem
open Event (process receive request)

/-! ## Promises along a run -/

/-- The step costs no replica part of its log through a recovery that ends in
the view it began in. -/
def Cluster.KeepsLogs (c c' : Cluster) : Prop :=
  ∀ i < c.size, (c.state i).status = .recovery → (c'.state i).view = (c.state i).view →
    (c.state i).op ≤ (c'.state i).op

/-- The cluster is where the protocol is, and the protocol's promises hold. -/
structure Safe (f : Nat) (c : Cluster) (a : Abs) : Prop where
  refines : Refines f c a
  promises : Promises (config f) a

section

variable {f : Nat} {c c' : Cluster} {a a' : Abs} {ev : Event}

theorem keeps_of_keepsLogs (h : Refines f c a) (h' : Refines f c' a')
    (hkeeps : c.KeepsLogs c') : Keeps (config f) a a' := by
  intro i hi hrec hview
  have hi := mem_members.mp hi
  have htracks := h.nodes i (h.size ▸ hi)
  have htracks' := h'.nodes i (h'.size ▸ hi)
  have hst : (c.state i).status = .recovery :=
    ReplicaStatus.abs_injective (htracks.status.symm.trans hrec)
  rw [← htracks.log.op, ← htracks'.log.op]
  exact hkeeps i (h.size ▸ hi) hst (by rw [← htracks.view, ← htracks'.view, hview])

theorem Safe.of_moves (h : Safe f c a) (hsmall : 2 * f + 1 ≤ 2 ^ 8) (hmoves : c.Moves ev c')
    (hstatic : c'.Static) (hok : c.Admissible ev c') (hkeeps : f = 1 ∨ c.KeepsLogs c') :
    ∃ a', Safe f c' a' ∧ (a' = a ∨ Step (config f) a a') := by
  obtain ⟨a', hmove, hrefines⟩ := h.refines.of_moves hsmall hmoves hstatic hok
  rcases hmove with rfl | hmove
  · exact ⟨a', ⟨hrefines, h.promises⟩, Or.inl rfl⟩
  · have hkept : Keeps (config f) a a' := by
      rcases hkeeps with rfl | hkeeps
      · exact hmove.keeps_of_three rfl h.refines.inv
      · exact keeps_of_keepsLogs h.refines hrefines hkeeps
    exact ⟨a', ⟨hrefines, h.promises.step h.refines.inv hmove hkept⟩, Or.inr hmove⟩

theorem Safe.step (h : Safe f c a) (hsmall : 2 * f + 1 ≤ 2 ^ 8) (hstep : c.step ev = some c')
    (hok : c.Admissible ev c') (hkeeps : f = 1 ∨ c.KeepsLogs c') :
    ∃ a', Safe f c' a' ∧ (a' = a ∨ Step (config f) a a') :=
  h.of_moves hsmall (Cluster.step_moves h.refines.static hstep)
    (Cluster.static_step h.refines.static hstep) hok hkeeps

theorem safe_init (f : Nat) : Safe f (Cluster.init (2 * f + 1)) (Viewstamped.initial {}) :=
  ⟨refines_init f, promises_initial _ _⟩

/-- Along a run the relation is kept, and history grows. -/
theorem Safe.run {ok : Cluster → Event → Cluster → Prop} (hsmall : 2 * f + 1 ≤ 2 ^ 8)
    (hok : ∀ {c ev c'}, c.Moves ev c' → c.size = 2 * f + 1 → ok c ev c' →
      c.Admissible ev c' ∧ (f = 1 ∨ c.KeepsLogs c'))
    (h : Safe f c a) (run : Cluster.Run ok c c') : ∃ a', Safe f c' a' ∧ Extends a a' := by
  refine run.simulation .refl .trans ?_ h
  intro u ev v b h hstep hcond
  obtain ⟨hadm, hkeeps⟩ := hok (Cluster.step_moves h.refines.static hstep) h.refines.size hcond
  obtain ⟨a₂, h₂, hmove⟩ := h.step hsmall hstep hadm hkeeps
  exact ⟨a₂, h₂, (extends_of_step h.refines.inv hmove).2.1⟩

/-! ## What was executed -/

/-- A committed entry is the same in the log of every later view that has
one. -/
theorem Safe.entryAt_committed (h : Safe f c a) {v w n : Nat} {e : LogEntry}
    (hcom : Committed (config f) a v n) (hvw : v ≤ w)
    (he : entryAt (a.viewLog w) n = some e) : entryAt (a.viewLog v) n = some e := by
  rcases hvw.lt_or_eq with hlt | rfl
  · have hholds : Holds a w (a.viewLog w) := by
      cases hb : a.base w with
      | none =>
          rw [h.refines.inv.unstarted w hb] at he
          have := entryAt_isSome he
          simp at this
          omega
      | some b => exact ⟨b, hb, h.refines.inv.base_le w b hb, List.prefix_rfl⟩
    obtain ⟨-, htake⟩ := committed_held h.refines.inv h.promises hcom hlt hholds
    rw [← entryAt_take htake (Nat.le_refl n)]
    exact he
  · exact he

/-- Two views that both have something at a committed op have the same. -/
theorem Safe.committed_agree (h : Safe f c a) {v v' w w' n : Nat} {e e' : LogEntry}
    (hcom : Committed (config f) a v' n) (hv : v' ≤ v) (he : entryAt (a.viewLog v) n = some e)
    (hcom' : Committed (config f) a w' n) (hw : w' ≤ w)
    (he' : entryAt (a.viewLog w) n = some e') : e = e' := by
  rcases Nat.le_total v' w' with hle | hle
  · have h₁ := h.entryAt_committed hcom hv he
    have h₂ := h.entryAt_committed hcom (hle.trans hw) he'
    exact Option.some.inj (h₁.symm.trans h₂)
  · have h₁ := h.entryAt_committed hcom' (hle.trans hv) he
    have h₂ := h.entryAt_committed hcom' hw he'
    exact Option.some.inj (h₁.symm.trans h₂)

theorem Safe.performed_agree (h : Safe f c a) {v w n : Nat} {e e' : LogEntry}
    (h₁ : Performed f a v n e) (h₂ : Performed f a w n e') : e.strip = e'.strip := by
  obtain ⟨he, v', hv, hcom⟩ := h₁
  obtain ⟨he', w', hw, hcom'⟩ := h₂
  exact h.committed_agree hcom hv he hcom' hw he'

/-- What was executed in view `v` is in the log of every replica that has
started a later view. -/
theorem Safe.performed_held (h : Safe f c a) {v n j : Nat} {e : LogEntry}
    (hperf : Performed f a v n e) (hj : j < c.size) (hst : (c.state j).status = .normal)
    (hlt : v < (c.state j).view) : ∃ e', (c.state j).log[n]? = some e' ∧ e'.strip = e.strip := by
  have htracks := h.refines.nodes j hj
  have hholds := htracks.holds h.refines.inv (h.refines.lt hj) (by simp [hst])
  obtain ⟨he, v', hv, hcom⟩ := hperf
  obtain ⟨-, htake⟩ := committed_held h.refines.inv h.promises hcom (hv.trans_lt hlt) hholds
  refine htracks.log.exists_get ?_
  rw [entryAt_take htake (Nat.le_refl n)]
  exact h.entryAt_committed hcom hv he

/-- Replicas agree on the entries they have executed. -/
def Cluster.ExecutionsAgree (c : Cluster) : Prop :=
  ∀ i j v w n e e' res res', (i, Effect.executed v n e res) ∈ c.trace →
    (j, Effect.executed w n e' res') ∈ c.trace → e.strip = e'.strip

/-- What has been executed in some view is in the log of every replica in
normal operation in a later one. -/
def Cluster.ExecutionsHeld (c : Cluster) : Prop :=
  ∀ i v n e res j, (i, Effect.executed v n e res) ∈ c.trace → j < c.size →
    (c.state j).status = .normal → v < (c.state j).view →
      ∃ e', (c.state j).log[n]? = some e' ∧ e'.strip = e.strip

theorem Safe.executionsAgree (h : Safe f c a) : c.ExecutionsAgree := by
  intro i j v w n e e' res res' h₁ h₂
  exact h.performed_agree (h.refines.executed i v n e res h₁)
    (h.refines.executed j w n e' res' h₂)

theorem Safe.executionsHeld (h : Safe f c a) : c.ExecutionsHeld := by
  intro i v n e res j hexec hj hst hlt
  exact h.performed_held (h.refines.executed i v n e res hexec) hj hst hlt

end

/-! ## View changes only -/

/-- A step without duplicates, restarts or recovery, with no counter near its
end. -/
def Cluster.ViewChangesOnly (c : Cluster) (ev : Event) (c' : Cluster) : Prop :=
  ev.isDuplicate = false ∧ ev.restarted? = none ∧ c'.InRange
    ∧ ∀ i < c.size, (c.state i).status ≠ .recovery ∧ (c'.state i).status ≠ .recovery

instance (c : Cluster) (ev : Event) (c' : Cluster) : Decidable (c.ViewChangesOnly ev c') :=
  inferInstanceAs (Decidable (_ ∧ _ ∧ _ ∧ ∀ i < c.size, _))

theorem Cluster.ViewChangesOnly.admissible {c c' : Cluster} {ev : Event}
    (h : c.ViewChangesOnly ev c') : c.Admissible ev c' ∧ c.KeepsLogs c' := by
  obtain ⟨honce, hrestart, hrange, hnone⟩ := h
  refine ⟨⟨honce, ?_, fun i hi _ hrec => absurd hrec (hnone i hi).2, hrange⟩,
    fun i hi hrec => absurd hrec (hnone i hi).1⟩
  intro i hi
  rw [hrestart] at hi
  cases hi

/-- Agreement across view changes. -/
theorem agreement_across_view_changes (f : Nat) (hsmall : 2 * f + 1 ≤ 256) {c : Cluster}
    (run : Cluster.Run Cluster.ViewChangesOnly (Cluster.init (2 * f + 1)) c) :
    c.ExecutionsAgree ∧ c.ExecutionsHeld := by
  obtain ⟨a, h, -⟩ := (safe_init f).run hsmall
    (fun _ _ hok => hok.admissible.imp_right Or.inr) run
  exact ⟨h.executionsAgree, h.executionsHeld⟩

/-- Replica 0 executes a request in view 0, and replicas 1 and 2 go on to
view 1. -/
def executedThenViewChange : List Event :=
  request 0 7 (setRequest 1 1 [97, 32, 98]) ++ receive 0 1 ++ receive 1 0
    ++ [.timeout 1, .timeout 2] ++ receive 4 1 ++ receive 2 2 ++ receive 3 1

theorem agreement_in_view_one :
    ∃ c, Cluster.Run Cluster.ViewChangesOnly (Cluster.init (2 * 1 + 1)) c
      ∧ ((∃ x ∈ c.executions, x.1 = 0 ∧ x.2.1 = 1)
        ∧ (c.state 1).status = .normal ∧ (c.state 1).view = 1)
      ∧ c.ExecutionsAgree ∧ c.ExecutionsHeld := by
  obtain ⟨c, run, h⟩ := exists_of_replay Cluster.step Cluster.ViewChangesOnly
    (Cluster.init (2 * 1 + 1)) executedThenViewChange
    (P := fun c => (∃ x ∈ c.executions, x.1 = 0 ∧ x.2.1 = 1)
      ∧ (c.state 1).status = .normal ∧ (c.state 1).view = 1) (by decide +kernel)
  exact ⟨c, run, h, agreement_across_view_changes 1 (by norm_num) run⟩

/-! ## Recovery in a cluster of three -/

/-- A step without duplicates or restarts, with unique nonces and no counter
near its end. -/
def Cluster.NoRestarts (c : Cluster) (ev : Event) (c' : Cluster) : Prop :=
  ev.isDuplicate = false ∧ ev.restarted? = none ∧ c.FreshNonces c' ∧ c'.InRange

instance (c : Cluster) (ev : Event) (c' : Cluster) : Decidable (c.NoRestarts ev c') :=
  inferInstanceAs (Decidable (_ ∧ _ ∧ _ ∧ _))

theorem Cluster.NoRestarts.admissible {c c' : Cluster} {ev : Event} (h : c.NoRestarts ev c') :
    c.Admissible ev c' := by
  obtain ⟨honce, hrestart, hfresh, hrange⟩ := h
  refine ⟨honce, ?_, hfresh, hrange⟩
  intro i hi
  rw [hrestart] at hi
  cases hi

/-- Agreement with recovery, in the cluster that is deployed. -/
theorem agreement_of_three {c : Cluster} (run : Cluster.Run Cluster.NoRestarts (Cluster.init 3) c) :
    c.ExecutionsAgree ∧ c.ExecutionsHeld := by
  obtain ⟨a, h, -⟩ := (safe_init 1).run (by norm_num)
    (fun _ _ hok => ⟨hok.admissible, Or.inl rfl⟩) run
  exact ⟨h.executionsAgree, h.executionsHeld⟩

/-- Replica 2 misses a `Prepare`, recovers, and takes part in the change to
view 1. -/
def recoveredThenViewChange : List Event :=
  request 0 7 (setRequest 1 1 [97, 32, 98]) ++ receive 0 1 ++ receive 1 0
    ++ request 0 8 (setRequest 2 1 [97, 32, 98]) ++ [.deliver 2] ++ process 2 1
    ++ receive 2 0 ++ receive 2 1 ++ receive 2 2 ++ receive 2 2
    ++ [.timeout 1, .timeout 2] ++ receive 5 1 ++ receive 3 2 ++ receive 4 1

theorem agreement_after_recovery :
    ∃ c, Cluster.Run Cluster.NoRestarts (Cluster.init 3) c
      ∧ ((∃ x ∈ c.executions, x.1 = 0 ∧ x.2.1 = 1) ∧ (∃ x ∈ c.executions, x.1 = 2 ∧ x.2.1 = 1)
        ∧ (c.state 1).status = .normal ∧ (c.state 1).view = 1)
      ∧ c.ExecutionsAgree ∧ c.ExecutionsHeld := by
  obtain ⟨c, run, h⟩ := exists_of_replay Cluster.step Cluster.NoRestarts (Cluster.init 3)
    recoveredThenViewChange
    (P := fun c => (∃ x ∈ c.executions, x.1 = 0 ∧ x.2.1 = 1)
      ∧ (∃ x ∈ c.executions, x.1 = 2 ∧ x.2.1 = 1)
      ∧ (c.state 1).status = .normal ∧ (c.state 1).view = 1) (by decide +kernel)
  exact ⟨c, run, h, agreement_of_three run⟩

end VsrKv
