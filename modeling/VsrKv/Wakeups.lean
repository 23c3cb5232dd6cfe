import VsrKv.EventLoop

/-!
# Wakeups

A post wakes the loop through the eventfd, whose read takes all writes
so far at once, so a read that returns at the wrong moment could take
the wakeup of a post the loop has not seen. If the read returns only to
a loop that waits, none is missed (`wakeups_kept`). It may return at
other times too, and then it is the eventfd not blocking that saves the
loop: were the read to wait for a write, a wakeup could be taken off the
ring too late, after the work queue has been looked at
(`wakeup_missed`).
-/

namespace VsrKv

open TransitionSystem

namespace IoUringLoop

variable {ω : Type}

/-- The read of the eventfd returns only to a loop that waits. -/
def ReadsWhileWaiting (l : IoUringLoop ω) (e : LoopEvent ω) (_ : IoUringLoop ω) : Prop :=
  e = .eventFdRead → l.phase = .waiting

instance [DecidableEq ω] (l : IoUringLoop ω) (e : LoopEvent ω) (l' : IoUringLoop ω) :
    Decidable (ReadsWhileWaiting l e l') := inferInstanceAs (Decidable (_ → _))

/-- Queued work is on its way to be noticed: its post is not over, the eventfd says so,
or the loop is about to wake. -/
def Noticed (l : IoUringLoop ω) : Prop :=
  l.workQueue ≠ [] → 0 < l.posting ∨ 0 < l.eventFd ∨ (.eventfd ∈ l.completions ∧ l.phase = .waiting)

theorem Noticed.of_busy {l l' : IoUringLoop ω} (h : Noticed l) (hphase : l.phase ≠ .waiting)
    (hqueue : l'.workQueue = l.workQueue) (hposting : l'.posting = l.posting)
    (heventFd : l'.eventFd = l.eventFd) : Noticed l' := by
  intro hne
  rw [hposting, heventFd]
  rcases h (hqueue ▸ hne) with hpost | hfd | ⟨-, hwaiting⟩
  · exact Or.inl hpost
  · exact Or.inr (Or.inl hfd)
  · exact absurd hwaiting hphase

theorem Noticed.step {l l' : IoUringLoop ω} {e : LoopEvent ω} (h : Noticed l)
    (hstep : l.step e = some l') (hok : ReadsWhileWaiting l e l') : Noticed l' := by
  obtain ⟨-, hstep⟩ := step_eq_some.mp hstep
  cases e with
  | push work =>
      obtain rfl := Option.some.inj hstep
      exact fun _ => Or.inl (Nat.succ_pos _)
  | write =>
      simp only [advance, Option.ite_none_right_eq_some, Option.some.injEq] at hstep
      obtain ⟨-, rfl⟩ := hstep
      exact fun _ => Or.inr (Or.inl (Nat.lt_min.mpr ⟨Nat.succ_pos _, by simp [eventFdMax]⟩))
  | prepare =>
      simp only [advance, Option.ite_none_right_eq_some, Option.some.injEq] at hstep
      obtain ⟨-, rfl⟩ := hstep
      unfold submitRequest
      split <;> exact h
  | run =>
      simp only [advance, Option.ite_none_right_eq_some, Option.some.injEq] at hstep
      obtain ⟨hphase, rfl⟩ := hstep
      unfold postEventFdRead
      split <;> exact h.of_busy (by simp [hphase]) rfl rfl rfl
  | submit =>
      simp only [advance, Option.ite_none_right_eq_some, Option.some.injEq] at hstep
      obtain ⟨hphase, rfl⟩ := hstep
      exact h.of_busy (by simp [hphase]) rfl rfl rfl
  | wake =>
      simp only [advance, Option.ite_none_right_eq_some, Option.some.injEq] at hstep
      obtain ⟨-, rfl⟩ := hstep
      exact fun hne => absurd rfl hne
  | work =>
      simp only [advance, Option.ite_none_right_eq_some] at hstep
      obtain ⟨hphase, hstep⟩ := hstep
      split at hstep
      · obtain rfl := Option.some.inj hstep
        exact h.of_busy (by simp [hphase]) rfl rfl rfl
      · cases hstep
  | workDone | loopAround =>
      simp only [advance, Option.ite_none_right_eq_some, Option.some.injEq] at hstep
      obtain ⟨⟨hphase, -⟩, rfl⟩ := hstep
      exact h.of_busy (by simp [hphase]) rfl rfl rfl
  | complete =>
      simp only [advance, Option.ite_none_right_eq_some] at hstep
      obtain ⟨hphase, hstep⟩ := hstep
      split at hstep
      · obtain rfl := Option.some.inj hstep
        unfold postEventFdRead
        split <;> exact h.of_busy (by simp [hphase]) rfl rfl rfl
      · obtain rfl := Option.some.inj hstep
        exact h.of_busy (by simp [hphase]) rfl rfl rfl
      · cases hstep
  | eventFdRead =>
      simp only [advance, Option.ite_none_right_eq_some, Option.some.injEq] at hstep
      obtain ⟨-, rfl⟩ := hstep
      exact fun _ => Or.inr (Or.inr ⟨by simp, hok rfl⟩)
  | eventFdAgain | ioDone type =>
      simp only [advance, Option.ite_none_right_eq_some, Option.some.injEq] at hstep
      obtain ⟨-, rfl⟩ := hstep
      intro hne
      exact (h hne).imp_right (Or.imp_right (And.imp_left fun hmem => List.mem_append_left _ hmem))

/-- If the read of the eventfd returns only to a loop that waits, a loop that waits with
work on its queue will hear of it: from the rest of a post, from a completion it has, or
from the read, which is in flight and can return. -/
theorem wakeups_kept {l : IoUringLoop ω} (run : Steps step ReadsWhileWaiting {} l)
    (hphase : l.phase = .waiting) (hqueue : l.workQueue ≠ []) :
    0 < l.posting ∨ l.completions ≠ [] ∨ (0 < l.reading ∧ 0 < l.eventFd) := by
  have hsound := sound_run run
  have hnoticed : Noticed l := run.invariant (fun hne => absurd rfl hne)
    fun _ _ _ _ hstep hok h => h.step hstep hok
  rcases hnoticed hqueue with hposting | hfd | ⟨hmem, -⟩
  · exact Or.inl hposting
  · by_cases hcompletions : l.completions = []
    · have hreads := hsound.reads (by simp [hphase]) (by simp [hphase])
      rw [hsound.waiting hphase, hcompletions, List.count_nil] at hreads
      exact Or.inr (Or.inr ⟨by omega, hfd⟩)
    · exact Or.inr (Or.inl hcompletions)
  · exact Or.inr (Or.inl (List.ne_nil_of_mem hmem))

theorem wakeups_kept_one :
    ∃ l : IoUringLoop Nat, (l.phase = .waiting ∧ l.workQueue ≠ [])
      ∧ (0 < l.posting ∨ l.completions ≠ [] ∨ (0 < l.reading ∧ 0 < l.eventFd)) := by
  obtain ⟨l, run, hphase, hqueue⟩ := exists_of_replay step ReadsWhileWaiting {}
    [.run, .submit, .push 1, .write] (P := fun l => l.phase = .waiting ∧ l.workQueue ≠ [])
    (by decide)
  exact ⟨l, ⟨hphase, hqueue⟩, wakeups_kept run hphase hqueue⟩

/-- Work posted after the queue has been looked at, and a read that returns before the
completions have been: the loop takes the wakeup for the one it has had, and with a
read that waits for the eventfd nothing would wake it. -/
def readsWhileWorking : List (LoopEvent Nat) :=
  [.run, .submit, .ioDone .read, .wake, .push 1, .write, .eventFdRead, .workDone, .complete,
    .complete, .loopAround, .submit]

theorem wakeup_missed :
    ∃ l : IoUringLoop Nat, Steps step (fun _ e _ => e ≠ .eventFdAgain) {} l
      ∧ l.phase = .waiting ∧ l.workQueue = [1] ∧ l.posting = 0 ∧ l.completions = []
      ∧ l.eventFd = 0 :=
  exists_of_replay step (fun _ e _ => e ≠ .eventFdAgain) {} readsWhileWorking
    (P := fun l => l.phase = .waiting ∧ l.workQueue = [1] ∧ l.posting = 0 ∧ l.completions = []
      ∧ l.eventFd = 0) (by decide)

end IoUringLoop

end VsrKv
