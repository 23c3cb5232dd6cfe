import VsrKv.Recovery

/-!
# What has been executed is not lost

Executing an op takes the promises of `f + 1` replicas, and each of them
keeps its own: it has the entry in its log for as long as it is in the
view it promised it in, while it waits for the next one to begin, and in
every later view, since whoever leads that has it too. So an entry that
some replica has executed, at whatever time and in whatever view, is in
the logs of `f + 1` replicas now, whatever these are doing
(`executed_held`): any `f` may be gone.
-/

namespace VsrKv

open Replica Viewstamped TransitionSystem
open Event (process receive request)

/-- Every executed entry is in the logs of a quorum. -/
def Cluster.ExecutedHeld (f : Nat) (c : Cluster) : Prop :=
  ∀ i v n e res, (i, Effect.executed v n e res) ∈ c.trace →
    ∃ Q ⊆ Finset.range c.size, f + 1 ≤ Q.card
      ∧ ∀ j ∈ Q, ∃ e', (c.state j).log[n]? = some e' ∧ e'.strip = e.strip

theorem Safe.executedHeld {f : Nat} {c : Cluster} {a : Abs} (h : Safe f c a) :
    c.ExecutedHeld f := by
  intro i v n e res hexec
  obtain ⟨he, v', hv, hcom⟩ := h.refines.executed i v n e res hexec
  have he' := h.entryAt_committed hcom hv he
  obtain ⟨Q, ⟨hmembers, hcard⟩, hpromised⟩ := id hcom
  refine ⟨Q, ?_, hcard, ?_⟩
  · rw [h.refines.size]
    exact hmembers
  · intro j hj
    obtain ⟨hlen, htake⟩ := promised_kept h.refines.inv h.promises hcom (entryAt_isSome he).1
      (hmembers hj) (hpromised j hj)
    have hsize : j < c.size := h.refines.size ▸ mem_members.mp (hmembers hj)
    refine (h.refines.nodes j hsize).log.exists_get ?_
    rw [entryAt_take htake (Nat.le_refl n)]
    exact he'

/-- In clusters of any size, with recoveries and restarts. -/
theorem executed_held (f : Nat) (hsmall : 2 * f + 1 ≤ 256) {c : Cluster}
    (run : Cluster.Run Cluster.HarmlessRestarts (Cluster.init (2 * f + 1)) c) :
    c.ExecutedHeld f := by
  obtain ⟨a, h, -⟩ := (safe_init f).run hsmall
    (fun hmoves hsize hok => ⟨hok.1, hmoves.three_or_keepsLogs hsize hok.1 hok.2⟩) run
  exact h.executedHeld

/-- Replica 0 executes a request in view 0; replicas 1 and 2 are waiting for view 1
to begin. -/
theorem executed_held_between_views :
    ∃ c, Cluster.Run Cluster.HarmlessRestarts (Cluster.init (2 * 1 + 1)) c
      ∧ ((∃ x ∈ c.executions, x.1 = 0 ∧ x.2.1 = 1) ∧ (c.state 1).status = .viewChange
        ∧ (c.state 2).status = .viewChange)
      ∧ c.ExecutedHeld 1 := by
  obtain ⟨c, run, h⟩ := exists_of_replay Cluster.step Cluster.HarmlessRestarts
    (Cluster.init (2 * 1 + 1))
    (request 0 7 (setRequest 1 1 [97, 32, 98]) ++ receive 0 1 ++ receive 1 0
      ++ [.timeout 1, .timeout 2])
    (P := fun c => (∃ x ∈ c.executions, x.1 = 0 ∧ x.2.1 = 1) ∧ (c.state 1).status = .viewChange
      ∧ (c.state 2).status = .viewChange) (by decide +kernel)
  exact ⟨c, run, h, executed_held 1 (by norm_num) run⟩

end VsrKv
