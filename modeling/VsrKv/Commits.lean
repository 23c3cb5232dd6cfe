import VsrKv.GapFree
import VsrKv.Recovery

/-!
# Commit numbers

Six places write `commit_`. A `Prepare` and a `Commit` are only believed
where they say more than is known, the primary's own loop goes up, and a
new primary takes a maximum that includes its own number. The two
remaining ones, `handle_start_view` and `handle_recovery_response`,
assign what the message says. The message may know less: a primary that
has committed an op and told nobody about it is not needed for the
quorum that starts the next view, and the `StartView` of that view takes
its commit number back to below what it has executed
(`startView_lowers_commit`).

As long as what is assigned is no less than what is there
(`CommitsKept`), commit numbers do not go back, and nothing is executed
that is not committed (`commit_never_goes_back`).
-/

namespace VsrKv

open Replica TransitionSystem
open Event (process receive request)

/-! ## The primary's loop -/

/-- The loop does not go back: it passes logged ops only, and there is none
past the last number a counter can hold. -/
theorem le_advanceLoop (f : Nat) {log : Log} {op : Nat} (hlog : GapFree log op) (k : Nat)
    {commit : Nat} (hcommit : commit < 2 ^ 64) : commit ≤ advanceLoop f log k commit := by
  induction k generalizing commit with
  | zero => exact Nat.le_refl _
  | succ k ih =>
      rw [advanceLoop]
      split
      · exact Nat.le_refl _
      · rename_i entry hentry
        split
        · exact Nat.le_refl _
        · have hmem : u64 (commit + 1) ∈ log := mem_of_logged hentry
          have hpos := ((hlog _).mp hmem).1
          have hnext : commit + 1 < 2 ^ 64 := by
            by_contra hwrap
            have hlast : commit + 1 = 2 ^ 64 := by omega
            rw [hlast] at hpos
            simp [u64] at hpos
          have hle := ih (u64_lt (commit + 1))
          rw [u64_eq hnext] at hle ⊢
          omega

/-! ## Handling a message -/

/-- The response `handle_recovery_response` adopts, if `msg` completes the
recovery. -/
def bestResponse (s : ReplicaState) (msg : VsrMessage) : VsrMessage :=
  match s.recoveryResponses with
  | [] => msg
  | first :: rest => (rest ++ [msg]).foldl betterResponse first

/-- What handling `msg` assigns to the commit number is not below it. -/
def KeepsCommit (s : ReplicaState) (msg : VsrMessage) : Prop :=
  (msg.header.command = .startView → checkCanProcessStartView s msg = true →
      s.commit ≤ msg.header.commit)
    ∧ (completesRecovery s msg = true → s.commit ≤ (bestResponse s msg).header.commit)

instance (s : ReplicaState) (msg : VsrMessage) : Decidable (KeepsCommit s msg) :=
  inferInstanceAs (Decidable ((_ → _ → _) ∧ (_ → _)))

section

variable {env : Env} {s s' : ReplicaState} {im : InboundMessage} {effs : List Effect}

theorem bestResponse_eq {first : VsrMessage} {rest : List VsrMessage} {msg : VsrMessage}
    (h : s.recoveryResponses ++ [msg] = first :: rest) :
    bestResponse s msg = rest.foldl betterResponse first := by
  unfold bestResponse
  cases hr : s.recoveryResponses with
  | nil =>
      rw [hr] at h
      cases h
      rfl
  | cons m ms =>
      rw [hr] at h
      cases h
      rfl

/-- Execution stops at the commit number. -/
theorem Replica.Executed.le_commit (hexec : Executed s s' effs) (h : s.lastExecutedOp ≤ s.commit) :
    s'.lastExecutedOp ≤ s'.commit := by
  induction hexec with
  | refl => exact h
  | turn hexec hlt hlog replies hreplies ih =>
      rw [turnState_lastExecutedOp, turnState_commit]
      exact hlt

theorem Replica.Executed.keepsCommit {s₁ : ReplicaState} (hexec : Executed s₁ s' effs)
    (hle : s.commit ≤ s₁.commit) (h : s₁.lastExecutedOp ≤ s₁.commit) :
    s.commit ≤ s'.commit ∧ s'.lastExecutedOp ≤ s'.commit := by
  have hdone := hexec.le_commit h
  obtain ⟨n, t, m, rfl⟩ := hexec.state
  exact ⟨hle, hdone⟩

theorem commit_le_raiseTo (s : ReplicaState) (k : Nat) : s.commit ≤ (raiseTo s k).commit := by
  show s.commit ≤ if k > s.commit then k else s.commit
  split <;> omega

theorem Acts.keepsCommit (hwhole : Whole s) (hfits : Fits s)
    (hexecuted : s.lastExecutedOp ≤ s.commit) (hstale : Node.isStale s im.message = false)
    (hkeeps : KeepsCommit s im.message) (h : Acts env s im s' effs) :
    s.commit ≤ s'.commit ∧ s'.lastExecutedOp ≤ s'.commit := by
  cases h with
  | accept _ _ _ _ _ _ _ hexec =>
      have hle := commit_le_raiseTo (appendEntry s (entryOf s.view im.message ∅))
        im.message.header.commit
      exact hexec.keepsCommit hle (hexecuted.trans hle)
  | acknowledge entry _ _ _ _ _ _ hentry hexec =>
      have hmem : im.message.header.op ∈ s.log := mem_of_logged hentry
      have hle := le_advanceLoop s.faultToleranceF (hwhole.log.insert_same hmem
        { entry with
          prepareOkAcks := insert im.message.header.replica entry.prepareOkAcks })
        (recordAck s im.message.header.op im.message.header.replica entry).log.size hfits.commit
      exact hexec.keepsCommit hle (hexecuted.trans hle)
  | learn _ _ _ _ _ _ hexec =>
      have hle := commit_le_raiseTo s im.message.header.commit
      exact hexec.keepsCommit hle (hexecuted.trans hle)
  | collect s₁ d h => cases h <;> exact ⟨Nat.le_refl _, hexecuted⟩
  | startView s₁ d h hquorum best hbest _ _ hexec =>
      have hle : s.commit ≤ best.commit := by
        rw [hbest]
        exact (selectLog_chosenFrom _ _ (by simp)).le
      have hsame : s₁.lastExecutedOp = s.lastExecutedOp := by cases h <;> rfl
      refine hexec.keepsCommit hle ?_
      show s₁.lastExecutedOp ≤ best.commit
      omega
  | adopt payload _ _ hcmd hview hst hprimary _ hexec =>
      have hle := hkeeps.1 hcmd (by simp [checkCanProcessStartView, hview, hst, hprimary])
      exact hexec.keepsCommit hle (hexecuted.trans hle)
  | recover payload hcmd hst hpayload hnonce first rest hlist hquorum s₁ _ hexec =>
      have hle := hkeeps.2
        (completesRecovery_of_recover hcmd hst hstale hpayload hnonce hlist hquorum)
      rw [bestResponse_eq hlist] at hle
      have h₁ := hexec.keepsCommit hle (Nat.zero_le _)
      exact ⟨h₁.1, h₁.2⟩
  | _ => exact ⟨Nat.le_refl _, hexecuted⟩

end

/-! ## Along a run -/

namespace Cluster

variable {c c' : Cluster} {ev : Event}

/-- No replica restarts, op numbers fit, and no commit number is assigned
below the one that is there. -/
structure CommitsKept (c : Cluster) (ev : Event) (c' : Cluster) : Prop where
  restart : ev.restarted? = none
  ops : OpsFit c ev c'
  commits : ∀ i ∈ ev.ticked?, ∀ im ∈ (c.queue i).head?, KeepsCommit (c.state i) im.message

instance (c : Cluster) (ev : Event) (c' : Cluster) : Decidable (CommitsKept c ev c') :=
  decidable_of_iff
    (ev.restarted? = none ∧ OpsFit c ev c'
      ∧ ∀ i ∈ ev.ticked?, ∀ im ∈ (c.queue i).head?, KeepsCommit (c.state i) im.message)
    ⟨fun ⟨h₁, h₂, h₃⟩ => ⟨h₁, h₂, h₃⟩, fun h => ⟨h.restart, h.ops, h.commits⟩⟩

/-- What has been executed is committed. -/
def ExecutedCommitted (c : Cluster) : Prop :=
  ∀ i, (c.state i).lastExecutedOp ≤ (c.state i).commit

theorem Moves.keepsCommit (hmoves : Moves c ev c') (h : Gapless c)
    (hexecuted : ExecutedCommitted c) (hok : CommitsKept c ev c') (j : Nat) :
    (c.state j).commit ≤ (c'.state j).commit
      ∧ (c'.state j).lastExecutedOp ≤ (c'.state j).commit := by
  have hchanges := hmoves.changes j
  generalize c'.state j = s' at hchanges ⊢
  cases hchanges with
  | same => exact ⟨Nat.le_refl _, hexecuted j⟩
  | act env im rest _ effs hlt hev hqueue hstale hacts =>
      exact hacts.keepsCommit (h.states j) (h.bounded.states j) (hexecuted j) hstale
        (hok.commits j (by rw [hev]; rfl) im (by rw [hqueue]; rfl))
  | enterView => exact ⟨Nat.le_refl _, hexecuted j⟩
  | enterRecovery => exact ⟨Nat.le_refl _, hexecuted j⟩
  | restart hev =>
      have hnone := hok.restart
      rw [hev] at hnone
      cases hnone

theorem executedCommitted_run {n : Nat} (run : Run CommitsKept (init n) c) :
    ExecutedCommitted c := by
  refine run.invariant ?_ ?_
  · intro i
    exact Nat.le_refl 0
  · intro u ev v run hstep hok h j
    exact ((step_moves (static_run run) hstep).keepsCommit
      (gapless_run (fun _ _ _ h => h.ops) run) h hok j).2

/-- Where no commit number is assigned below the one that is there, none goes
back, in any step of any run, and what has been executed is committed. -/
theorem commit_never_goes_back {n : Nat} (run : Run CommitsKept (init n) c) :
    ExecutedCommitted c ∧ ∀ ev c', c.step ev = some c' → CommitsKept c ev c' →
      ∀ i, (c.state i).commit ≤ (c'.state i).commit := by
  have hexecuted := executedCommitted_run run
  refine ⟨hexecuted, ?_⟩
  intro ev c' hstep hok i
  exact ((step_moves (static_run run) hstep).keepsCommit
    (gapless_run (fun _ _ _ h => h.ops) run) hexecuted hok i).1

/-- Replica 0 commits a request, and replica 2 adopts a `StartView` that does
not know. -/
theorem commit_kept_in_view_one :
    ∃ c, Run CommitsKept (init (2 * 1 + 1)) c
      ∧ ((c.state 0).commit = 1 ∧ (c.state 2).view = 1 ∧ (c.state 2).status = .normal)
      ∧ ExecutedCommitted c := by
  obtain ⟨c, run, h⟩ := exists_of_replay step CommitsKept (init (2 * 1 + 1))
    (executedThenViewChange ++ receive 4 2)
    (P := fun c => (c.state 0).commit = 1 ∧ (c.state 2).view = 1 ∧ (c.state 2).status = .normal)
    (by decide +kernel)
  exact ⟨c, run, h, (commit_never_goes_back run).1⟩

/-- Replica 0 joins the change to view 1 late, and adopts the same
`StartView`. -/
theorem startView_lowers_commit :
    ∃ c c', Run NoRestarts (init (2 * 1 + 1)) c ∧ c.step (.tick 0 {}) = some c'
      ∧ NoRestarts c (.tick 0 {}) c'
      ∧ (c'.state 0).commit < (c.state 0).commit
      ∧ (c'.state 0).commit < (c'.state 0).lastExecutedOp := by
  obtain ⟨c, run, c', hstep, h⟩ := exists_of_replay step NoRestarts (init (2 * 1 + 1))
    (executedThenViewChange ++ [.deliver 1] ++ process 0 1 ++ [.deliver 2, .start 0, .tick 0 {}])
    (P := fun c => ∃ c' ∈ c.step (.tick 0 {}), NoRestarts c (.tick 0 {}) c'
      ∧ (c'.state 0).commit < (c.state 0).commit
      ∧ (c'.state 0).commit < (c'.state 0).lastExecutedOp) (by decide +kernel)
  exact ⟨c, c', run, hstep, h⟩

end Cluster

end VsrKv
