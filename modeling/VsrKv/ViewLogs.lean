import VsrKv.Agreement

/-!
# Logs within a view

All that happens in a view is written in one list, the view's log, and
what a replica holds in the view is a prefix of it. So any two replicas
agree on the op numbers both have, at whatever moments one looks at
them, and the primary never gives one number to two requests. Nothing is
asked of recoveries here: one that loses entries still comes back with a
prefix, and a primary that recovers does so into a later view.
-/

namespace VsrKv

open Replica Viewstamped TransitionSystem
open Event (process receive request)

section

variable {f i : Nat} {c : Cluster} {a a' : Abs}

/-- What is in a replica's log is in the log of its view. -/
theorem Refines.entryAt_viewLog (h : Refines f c a) (hi : i < c.size)
    (hst : (c.state i).status = .normal) {n : Nat} {e : LogEntry}
    (he : (c.state i).log[n]? = some e) :
    entryAt (a.viewLog (c.state i).view) n = some e.strip := by
  have htracks := h.nodes i hi
  obtain ⟨b, -, -, hlog⟩ := htracks.holds h.inv (h.lt hi) (by simp [hst])
  exact entryAt_mono hlog (htracks.log.entryAt_some he)

theorem Refines.entryAt_prepare (h : Refines f c a) {m : VsrMessage} (hsent : c.Sent i m)
    (hcmd : m.header.command = .prepare) :
    entryAt (a.viewLog m.header.view) m.header.op = some (entryOf m.header.view m ∅) := by
  have hmeaning := (h.sent i m hsent).2
  simp only [hcmd] at hmeaning
  exact hmeaning.1

end

/-- At two moments of a run, the logs of any two replicas in normal operation
in one view agree where both have an entry. -/
def Cluster.ViewLogsAgree (c₁ c₂ : Cluster) : Prop :=
  ∀ (i j n : Nat) (e₁ e₂ : LogEntry), i < c₁.size → j < c₂.size → (c₁.state i).status = .normal →
    (c₂.state j).status = .normal → (c₁.state i).view = (c₂.state j).view →
    (c₁.state i).log[n]? = some e₁ → (c₂.state j).log[n]? = some e₂ → e₁.strip = e₂.strip

/-- Within a view, one op number is announced with one entry. -/
def Cluster.PreparesAgree (c : Cluster) : Prop :=
  ∀ i j m m', c.Sent i m → c.Sent j m' → m.header.command = .prepare →
    m'.header.command = .prepare → m.header.view = m'.header.view →
    m.header.op = m'.header.op → entryOf m.header.view m ∅ = entryOf m'.header.view m' ∅

theorem logs_agree_within_view (f : Nat) (hsmall : 2 * f + 1 ≤ 256) {c₁ c₂ : Cluster}
    (run₁ : Cluster.Run Cluster.NoRestarts (Cluster.init (2 * f + 1)) c₁)
    (run₂ : Cluster.Run Cluster.NoRestarts c₁ c₂) :
    c₁.ViewLogsAgree c₂ ∧ c₂.PreparesAgree := by
  have hok : ∀ c ev c', Cluster.NoRestarts c ev c' → c.Admissible ev c' :=
    fun _ _ _ h => h.admissible
  obtain ⟨a₁, h₁, -⟩ := (refines_init f).run hsmall hok run₁
  obtain ⟨a₂, h₂, hext⟩ := h₁.run hsmall hok run₂
  constructor
  · intro i j n e₁ e₂ hi hj hst₁ hst₂ hview he₁ he₂
    have hlog₁ := entryAt_mono (hext.viewLog _) (h₁.entryAt_viewLog hi hst₁ he₁)
    have hlog₂ := h₂.entryAt_viewLog hj hst₂ he₂
    rw [hview] at hlog₁
    exact Option.some.inj (hlog₁.symm.trans hlog₂)
  · intro i j m m' hsent hsent' hcmd hcmd' hview hop
    have hlog := h₂.entryAt_prepare hsent hcmd
    have hlog' := h₂.entryAt_prepare hsent' hcmd'
    rw [hview, hop] at hlog
    rw [hview]
    exact Option.some.inj (hlog.symm.trans hlog')

/-- Replica 0 executes op 1, with replica 1's help. -/
def executedFirst : List Event :=
  request 0 7 (setRequest 1 1 [97, 32, 98]) ++ receive 0 1 ++ receive 1 0

/-- Replica 2 hears of op 2 first, and recovers. -/
def missedThenRecovered : List Event :=
  request 0 8 (setRequest 2 1 [97, 32, 98]) ++ [.deliver 2] ++ process 2 1
    ++ receive 2 0 ++ receive 2 1 ++ receive 2 2 ++ receive 2 2

theorem logs_agree_after_recovery :
    ∃ c₁ c₂, Cluster.Run Cluster.NoRestarts (Cluster.init (2 * 1 + 1)) c₁
      ∧ Cluster.Run Cluster.NoRestarts c₁ c₂
      ∧ ((c₁.state 0).status = .normal ∧ (c₂.state 2).status = .normal
        ∧ (c₁.state 0).view = (c₂.state 2).view ∧ (c₁.state 0).log[1]? ≠ none
        ∧ (c₂.state 2).log[1]? ≠ none)
      ∧ c₁.ViewLogsAgree c₂ ∧ c₂.PreparesAgree := by
  obtain ⟨c₁, c₂, run₁, run₂, h⟩ := exists_of_replay₂ Cluster.step Cluster.NoRestarts
    (Cluster.init (2 * 1 + 1)) executedFirst missedThenRecovered
    (P := fun c₁ c₂ => (c₁.state 0).status = .normal ∧ (c₂.state 2).status = .normal
      ∧ (c₁.state 0).view = (c₂.state 2).view ∧ (c₁.state 0).log[1]? ≠ none
      ∧ (c₂.state 2).log[1]? ≠ none) (by decide +kernel)
  exact ⟨c₁, c₂, run₁, run₂, h, logs_agree_within_view 1 (by norm_num) run₁ run₂⟩

end VsrKv
