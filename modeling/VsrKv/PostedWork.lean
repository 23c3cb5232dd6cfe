import VsrKv.EventLoop

/-!
# Posted work

What is posted to the loop runs once, in the order posted, and the loop
gets to all of it because its read of the eventfd does not block: it
fails at once when there is nothing to read. All that can keep work from
running is a crash at the next read, for which `post_eventfd_read` does
not look whether the ring has a place. What the loop has taken off its
queue by then has run; what has been posted since has not, and never
will. So a loop whose ring is full while a read is to be prepared, with
work on the queue, is the only one that may not get through its work
(`posted_work_runs`).
-/

namespace VsrKv

open TransitionSystem

namespace IoUringLoop

variable {ω : Type}

/-! ## Without a clogged ring it runs -/

/-- A run of the loop by itself: nothing is posted, no other request completes, and what
work and callbacks prepare leaves room for the read of the eventfd. -/
abbrev Alone (l l' : IoUringLoop ω) : Prop :=
  Steps step (fun _ e l' => e.ofLoop = true ∧ (e = .prepare → l'.ReadFits)) l l'

/-- Work is queued, and the read of the eventfd that has to be prepared before the loop
gets to it finds the ring full. -/
def Clogged (l : IoUringLoop ω) : Prop :=
  l.workQueue ≠ [] ∧ ¬l.ReadFits ∧ l.phase ≠ .submitting ∧ l.phase ≠ .waiting

theorem Alone.head {l t l' : IoUringLoop ω} {e : LoopEvent ω} (hstep : l.step e = some t)
    (he : e.ofLoop = true) (hne : e ≠ .prepare) (run : Alone t l') : Alone l l' :=
  Steps.head hstep ⟨he, fun h => absurd h hne⟩ run

theorem Sound.alone {l l' : IoUringLoop ω} (h : Sound l) (run : Alone l l') : Sound l' :=
  run.invariant h fun _ _ _ _ hstep _ h => h.step hstep

theorem posted_step {l l' : IoUringLoop ω} {e : LoopEvent ω} (hstep : l.step e = some l')
    (he : e.ofLoop = true) : l'.posted = l.posted := by
  obtain ⟨-, hstep⟩ := step_eq_some.mp hstep
  cases e with
  | push | write | ioDone => cases he
  | prepare =>
      simp only [advance, Option.ite_none_right_eq_some, Option.some.injEq] at hstep
      obtain ⟨-, rfl⟩ := hstep
      unfold submitRequest
      split <;> rfl
  | run =>
      simp only [advance, Option.ite_none_right_eq_some, Option.some.injEq] at hstep
      obtain ⟨-, rfl⟩ := hstep
      unfold postEventFdRead
      split <;> rfl
  | work =>
      simp only [advance, Option.ite_none_right_eq_some] at hstep
      obtain ⟨-, hstep⟩ := hstep
      split at hstep
      · obtain rfl := Option.some.inj hstep
        rfl
      · cases hstep
  | complete =>
      simp only [advance, Option.ite_none_right_eq_some] at hstep
      obtain ⟨-, hstep⟩ := hstep
      split at hstep
      · obtain rfl := Option.some.inj hstep
        unfold postEventFdRead
        split <;> rfl
      · obtain rfl := Option.some.inj hstep
        rfl
      · cases hstep
  | _ =>
      simp only [advance, Option.ite_none_right_eq_some, Option.some.injEq] at hstep
      obtain ⟨-, rfl⟩ := hstep
      rfl

theorem posted_alone {l l' : IoUringLoop ω} (run : Alone l l') : l'.posted = l.posted :=
  run.invariant (I := fun l' => l'.posted = l.posted) rfl
    fun _ _ _ _ hstep hok h => (posted_step hstep hok.1).trans h

/-- The next read is prepared when the last has been completed, if there is room for it;
if there is none, what was posted before the queue was last looked at has run. -/
theorem not_clogged_step {l l' : IoUringLoop ω} {e : LoopEvent ω} (hsound : Sound l)
    (h : ¬l.Clogged) (hstep : l.step e = some l') (he : e.ofLoop = true)
    (hfits : e = .prepare → l'.ReadFits) : ¬l'.Clogged := by
  obtain ⟨halive, hstep⟩ := step_eq_some.mp hstep
  -- a read to prepare, and none prepared yet
  have hread : ∀ m : IoUringLoop ω, m.workQueue = l.workQueue → m.prepared = l.prepared →
      m.requests = l.requests → l.prepared = 0 → l.phase ≠ .submitting → l.phase ≠ .waiting →
      ¬m.postEventFdRead.Clogged := by
    intro m hqueue hprepared hrequests hzero hsubmitting hwaiting
    unfold postEventFdRead
    split
    · exact fun hclogged => hclogged.2.1 fun hp => by simp at hp
    · rename_i hroom
      have hfull := not_readFits_of_full (hprepared.trans hzero) hroom
      rw [not_readFits, hprepared, hrequests, ← not_readFits] at hfull
      exact fun hclogged => h ⟨hqueue ▸ hclogged.1, hfull, hsubmitting, hwaiting⟩
  cases e with
  | push | write | ioDone => cases he
  | prepare => exact fun hclogged => hclogged.2.1 (hfits rfl)
  | run =>
      simp only [advance, Option.ite_none_right_eq_some, Option.some.injEq] at hstep
      obtain ⟨hphase, rfl⟩ := hstep
      have hzero := hsound.created hphase
      exact hread _ rfl rfl rfl (by omega) (by simp [hphase]) (by simp [hphase])
  | submit =>
      simp only [advance, Option.ite_none_right_eq_some, Option.some.injEq] at hstep
      obtain ⟨-, rfl⟩ := hstep
      exact fun hclogged => hclogged.2.2.2 rfl
  | wake =>
      simp only [advance, Option.ite_none_right_eq_some, Option.some.injEq] at hstep
      obtain ⟨-, rfl⟩ := hstep
      exact fun hclogged => hclogged.1 rfl
  | work =>
      simp only [advance, Option.ite_none_right_eq_some] at hstep
      obtain ⟨-, hstep⟩ := hstep
      split at hstep
      · obtain rfl := Option.some.inj hstep
        exact h
      · cases hstep
  | workDone =>
      simp only [advance, Option.ite_none_right_eq_some, Option.some.injEq] at hstep
      obtain ⟨⟨hphase, -⟩, rfl⟩ := hstep
      exact fun hclogged => h ⟨hclogged.1, hclogged.2.1, by simp [hphase], by simp [hphase]⟩
  | complete =>
      simp only [advance, Option.ite_none_right_eq_some] at hstep
      obtain ⟨hphase, hstep⟩ := hstep
      split at hstep
      · rename_i rest hcompletions
        obtain rfl := Option.some.inj hstep
        have hone := hsound.reads (by simp [hphase]) halive
        rw [hcompletions, List.count_cons_self] at hone
        exact hread _ rfl rfl rfl (by omega) (by simp [hphase]) (by simp [hphase])
      · obtain rfl := Option.some.inj hstep
        exact h
      · cases hstep
  | loopAround =>
      simp only [advance, Option.ite_none_right_eq_some, Option.some.injEq] at hstep
      obtain ⟨-, rfl⟩ := hstep
      exact fun hclogged => hclogged.2.2.1 rfl
  | eventFdRead | eventFdAgain =>
      simp only [advance, Option.ite_none_right_eq_some, Option.some.injEq] at hstep
      obtain ⟨-, rfl⟩ := hstep
      exact h

theorem not_clogged_alone {l l' : IoUringLoop ω} (hsound : Sound l) (h : ¬l.Clogged)
    (run : Alone l l') : ¬l'.Clogged :=
  run.invariant (I := fun l => ¬l.Clogged) h fun _ _ _ run hstep hok h =>
    not_clogged_step (hsound.alone run) h hstep hok.1 hok.2

theorem finish_work (l : IoUringLoop ω) (hphase : l.phase = .working) :
    Alone l { l with phase := .completing, currentWork := [], ran := l.ran ++ l.currentWork } := by
  obtain ⟨work, hwork⟩ : ∃ work, l.currentWork = work := ⟨_, rfl⟩
  induction work generalizing l with
  | nil =>
      refine .head (e := .workDone) (t := { l with phase := .completing }) ?_ rfl (by simp) ?_
      · simp [step, advance, hphase, hwork]
      · rw [hwork, List.append_nil, ← hwork]
        exact .refl _
  | cons w rest ih =>
      have hrest := ih { l with currentWork := rest, ran := l.ran ++ [w] } hphase rfl
      refine .head (e := .work) (t := { l with currentWork := rest, ran := l.ran ++ [w] }) ?_ rfl
        (by simp) ?_
      · simp [step, advance, hphase, hwork]
      · simpa [hwork] using hrest

theorem finish_completions (l : IoUringLoop ω) (hsound : Sound l) (hphase : l.phase = .completing)
    (hfits : l.ReadFits) :
    ∃ n, Alone l { l with phase := .submitting, completions := [], prepared := n } := by
  obtain ⟨completions, hcompletions⟩ : ∃ completions, l.completions = completions := ⟨_, rfl⟩
  induction completions generalizing l with
  | nil =>
      refine ⟨l.prepared, .head (e := .loopAround) (t := { l with phase := .submitting }) ?_ rfl
        (by simp) ?_⟩
      · simp [step, advance, hphase, hcompletions]
      · rw [← hcompletions]
        exact .refl _
  | cons type rest ih =>
      obtain ⟨l₁, hstep, hphase₁, hfits₁, hrest, hsame⟩ : ∃ l₁ : IoUringLoop ω,
          l.step .complete = some l₁ ∧ l₁.phase = .completing ∧ l₁.ReadFits
          ∧ l₁.completions = rest ∧ ∃ n, l₁ = { l with completions := rest, prepared := n } := by
        by_cases htype : type = .eventfd
        · subst htype
          have hone := hsound.reads (by simp [hphase]) (by simp [hphase])
          rw [hcompletions, List.count_cons_self] at hone
          have hzero : l.prepared = 0 := by omega
          have hroom : l.prepared + l.requests < queueDepth := by
            have := hfits hzero
            omega
          refine ⟨{ l with completions := rest, prepared := l.prepared + 1 }, ?_, hphase,
            fun hp => ?_, rfl, _, rfl⟩
          · simp [step, advance, hphase, hcompletions, postEventFdRead, HasRoom, hroom]
          · simp at hp
        · refine ⟨{ l with completions := rest }, ?_, hphase, hfits, rfl, _, rfl⟩
          simp only [step, advance, hphase, if_true, hcompletions, reduceCtorEq, if_false]
      obtain ⟨n, hrun⟩ := ih l₁ (hsound.step hstep) hphase₁ hfits₁ hrest
      obtain ⟨m, rfl⟩ := hsame
      exact ⟨n, .head hstep rfl (by simp) hrun⟩

/-- A loop that waits is woken, since the read of the eventfd does not block, and runs
what is queued. -/
theorem run_waiting (l : IoUringLoop ω) (hsound : Sound l) (hphase : l.phase = .waiting) :
    ∃ l', Alone l l' ∧ l'.ran = l.posted := by
  have hposted := hsound.posted
  rw [hsound.working (by simp [hphase]), List.append_nil] at hposted
  have hwoken : ∀ l₁ : IoUringLoop ω, l₁.phase = .waiting → l₁.completions ≠ [] →
      l₁.workQueue = l.workQueue → l₁.ran = l.ran → ∃ l', Alone l₁ l' ∧ l'.ran = l.posted := by
    intro l₁ hphase₁ hcompletions hqueue hran
    have hwork := finish_work
      { l₁ with phase := .working, currentWork := l₁.workQueue, workQueue := [] } rfl
    refine ⟨_, .head (e := .wake) ?_ rfl (by simp) hwork, ?_⟩
    · simp [step, advance, hphase₁, hcompletions]
    · rw [hposted, ← hqueue, ← hran]
  have hreads := hsound.reads (by simp [hphase]) (by simp [hphase])
  rw [hsound.waiting hphase] at hreads
  by_cases hcompletions : l.completions = []
  · have hreading : 0 < l.reading := by
      rw [hcompletions, List.count_nil] at hreads
      omega
    by_cases heventFd : l.eventFd = 0
    · obtain ⟨l', hrun, hran⟩ := hwoken { l with
        reading := l.reading - 1, completions := l.completions ++ [.eventfd] }
        hphase (by simp) rfl rfl
      refine ⟨l', .head (e := .eventFdAgain) ?_ rfl (by simp) hrun, hran⟩
      simp [step, advance, hphase, hreading, heventFd]
    · obtain ⟨l', hrun, hran⟩ := hwoken { l with
        reading := l.reading - 1, eventFd := 0, completions := l.completions ++ [.eventfd] }
        hphase (by simp) rfl rfl
      refine ⟨l', .head (e := .eventFdRead) ?_ rfl (by simp) hrun, hran⟩
      simp [step, advance, hphase, hreading, Nat.pos_of_ne_zero heventFd]
  · exact hwoken l hphase hcompletions rfl rfl

theorem run_submitting (l : IoUringLoop ω) (hsound : Sound l) (hphase : l.phase = .submitting) :
    ∃ l', Alone l l' ∧ l'.ran = l.posted := by
  have hstep : l.step .submit = some { l with
      phase := .waiting, prepared := 0, requests := 0, reading := l.reading + l.prepared } := by
    simp [step, advance, hphase]
  obtain ⟨l', hrun, hran⟩ := run_waiting _ (hsound.step hstep) rfl
  exact ⟨l', .head hstep rfl (by simp) hrun, hran⟩

theorem run_completing (l : IoUringLoop ω) (hsound : Sound l) (hphase : l.phase = .completing)
    (hfits : l.ReadFits) : ∃ l', Alone l l' ∧ l'.ran = l.posted := by
  obtain ⟨n, hrun⟩ := finish_completions l hsound hphase hfits
  obtain ⟨l', hrun', hran⟩ := run_submitting _ (hsound.alone hrun) rfl
  exact ⟨l', hrun.trans hrun', hran⟩

theorem run_of_not_clogged (l : IoUringLoop ω) (hsound : Sound l) (h : ¬l.Clogged) :
    ∃ l', Alone l l' ∧ l'.ran = l.posted := by
  have hposted := hsound.posted
  -- with nothing on the queue there is at most the work that has been taken off it
  have hfits : l.workQueue ≠ [] → l.phase ≠ .submitting → l.phase ≠ .waiting → l.ReadFits := by
    intro hqueue hsubmitting hwaiting
    exact Classical.byContradiction fun hfull => h ⟨hqueue, hfull, hsubmitting, hwaiting⟩
  by_cases hqueue : l.workQueue = []
  · by_cases hphase : l.phase = .working
    · refine ⟨_, finish_work l hphase, ?_⟩
      rw [hposted, hqueue, List.append_nil]
    · refine ⟨l, .refl l, ?_⟩
      rw [hposted, hsound.working hphase, hqueue, List.append_nil, List.append_nil]
  · cases hphase : l.phase with
    | created =>
        have hfits := hfits hqueue (by simp [hphase]) (by simp [hphase])
        have hzero : l.prepared = 0 := by
          have := hsound.created hphase
          omega
        have hroom : l.prepared + l.requests < queueDepth := by
          have := hfits hzero
          omega
        have hstep : l.step .run
            = some { l with phase := .submitting, prepared := l.prepared + 1 } := by
          simp [step, advance, hphase, postEventFdRead, HasRoom, hroom]
        obtain ⟨l', hrun, hran⟩ := run_submitting _ (hsound.step hstep) rfl
        exact ⟨l', .head hstep rfl (by simp) hrun, hran⟩
    | submitting => exact run_submitting l hsound hphase
    | waiting => exact run_waiting l hsound hphase
    | working =>
        have hfits := hfits hqueue (by simp [hphase]) (by simp [hphase])
        have hrun := finish_work l hphase
        obtain ⟨l', hrun', hran⟩ := run_completing _ (hsound.alone hrun) rfl hfits
        exact ⟨l', hrun.trans hrun', hran⟩
    | completing =>
        exact run_completing l hsound hphase (hfits hqueue (by simp [hphase]) (by simp [hphase]))
    | crashed =>
        have hfits := hfits hqueue (by simp [hphase]) (by simp [hphase])
        exact absurd hfits (hsound.crashed hphase)

/-! ## On a full ring it does not -/

theorem crash_at_read (l : IoUringLoop ω) (rest : List RequestType) (hphase : l.phase = .completing)
    (hcompletions : l.completions = .eventfd :: rest) (hfull : ¬l.ReadFits) :
    ∃ l', Alone l l' ∧ l'.phase = .crashed ∧ l'.workQueue = l.workQueue := by
  obtain ⟨hzero, hrequests⟩ := not_readFits.mp hfull
  have hroom : ¬l.prepared + l.requests < queueDepth := by omega
  refine ⟨{ l with completions := rest, phase := .crashed },
    .head (e := .complete) ?_ rfl (by simp) (.refl _), rfl, rfl⟩
  simp [step, advance, hphase, hcompletions, postEventFdRead, HasRoom, hroom]

theorem crash_completing (l : IoUringLoop ω) (hsound : Sound l) (hphase : l.phase = .completing)
    (hfull : ¬l.ReadFits) :
    ∃ l', Alone l l' ∧ l'.phase = .crashed ∧ l'.workQueue = l.workQueue := by
  obtain ⟨completions, hcompletions⟩ : ∃ completions, l.completions = completions := ⟨_, rfl⟩
  induction completions generalizing l with
  | nil =>
      -- the read is in flight, and may return before the loop has gone round
      have hone := hsound.reads (by simp [hphase]) (by simp [hphase])
      rw [hcompletions, List.count_nil, (not_readFits.mp hfull).1] at hone
      have hreading : 0 < l.reading := by omega
      by_cases heventFd : l.eventFd = 0
      · obtain ⟨l', hrun, hend⟩ := crash_at_read { l with
          reading := l.reading - 1, completions := l.completions ++ [.eventfd] } []
          hphase (by simp [hcompletions]) hfull
        refine ⟨l', .head (e := .eventFdAgain) ?_ rfl (by simp) hrun, hend⟩
        simp [step, advance, hphase, hreading, heventFd]
      · obtain ⟨l', hrun, hend⟩ := crash_at_read { l with
          reading := l.reading - 1, eventFd := 0, completions := l.completions ++ [.eventfd] } []
          hphase (by simp [hcompletions]) hfull
        refine ⟨l', .head (e := .eventFdRead) ?_ rfl (by simp) hrun, hend⟩
        simp [step, advance, hphase, hreading, Nat.pos_of_ne_zero heventFd]
  | cons type rest ih =>
      by_cases htype : type = .eventfd
      · exact crash_at_read l rest hphase (by rw [hcompletions, htype]) hfull
      · have hstep : l.step .complete = some { l with completions := rest } := by
          simp only [step, advance, hphase, if_true, hcompletions, reduceCtorEq, if_false]
        obtain ⟨l', hrun, hend⟩ :=
          ih { l with completions := rest } (hsound.step hstep) hphase hfull rfl
        exact ⟨l', .head hstep rfl (by simp) hrun, hend⟩

theorem crash_of_clogged (l : IoUringLoop ω) (hsound : Sound l) (h : l.Clogged) :
    ∃ l', Alone l l' ∧ l'.phase = .crashed ∧ l'.workQueue ≠ [] := by
  obtain ⟨hqueue, hfull, hsubmitting, hwaiting⟩ := h
  cases hphase : l.phase with
  | created =>
      have hroom : ¬l.prepared + l.requests < queueDepth := by
        have := not_readFits.mp hfull
        omega
      refine ⟨{ l with phase := .crashed }, .head (e := .run) ?_ rfl (by simp) (.refl _), rfl,
        hqueue⟩
      simp [step, advance, hphase, postEventFdRead, HasRoom, hroom]
  | submitting => exact absurd hphase hsubmitting
  | waiting => exact absurd hphase hwaiting
  | working =>
      have hrun := finish_work l hphase
      obtain ⟨l', hrun', hcrashed, hqueue'⟩ := crash_completing _ (hsound.alone hrun) rfl hfull
      exact ⟨l', hrun.trans hrun', hcrashed, hqueue' ▸ hqueue⟩
  | completing =>
      obtain ⟨l', hrun, hcrashed, hqueue'⟩ := crash_completing l hsound hphase hfull
      exact ⟨l', hrun, hcrashed, hqueue' ▸ hqueue⟩
  | crashed => exact ⟨l, .refl l, hphase, hqueue⟩

theorem eq_of_crashed {l l' : IoUringLoop ω} (hphase : l.phase = .crashed) (run : Alone l l') :
    l' = l := by
  refine run.invariant (I := fun l' => l' = l) rfl ?_
  rintro u e v - hstep - rfl
  exact absurd hphase (step_eq_some.mp hstep).1

/-- In whatever order posting threads, the loop and the kernel take their steps, what is
posted runs in the order posted, each once. And at any moment the loop, left to itself,
is sure to have a way to the end of what is posted exactly if it is not clogged. -/
theorem posted_work_runs {ok : IoUringLoop ω → LoopEvent ω → IoUringLoop ω → Prop}
    {l : IoUringLoop ω} (run : Steps step ok {} l) :
    l.posted = l.ran ++ l.currentWork ++ l.workQueue
      ∧ ((∀ l₁, Alone l l₁ → ∃ l₂, Alone l₁ l₂ ∧ l₂.ran = l.posted) ↔ ¬l.Clogged) := by
  have hsound := sound_run run
  refine ⟨hsound.posted, fun hruns hclogged => ?_, fun h l₁ hrun => ?_⟩
  · obtain ⟨l₁, hrun, hcrashed, hqueue⟩ := crash_of_clogged l hsound hclogged
    obtain ⟨l₂, hrun₂, hran⟩ := hruns l₁ hrun
    obtain rfl := eq_of_crashed hcrashed hrun₂
    have hposted := (hsound.alone hrun).posted
    rw [posted_alone hrun, ← hran, List.append_assoc] at hposted
    have hnil := List.self_eq_append_right.mp hposted
    exact hqueue (List.append_eq_nil_iff.mp hnil).2
  · obtain ⟨l₂, hrun₂, hran⟩ :=
      run_of_not_clogged l₁ (hsound.alone hrun) (not_clogged_alone hsound h hrun)
    exact ⟨l₂, hrun₂, hran.trans (posted_alone hrun)⟩

/-- A post that is made while the loop works through its queue, and one from outside. -/
def postsWhileWorking : List (LoopEvent Nat) :=
  [.push 1, .run, .submit, .write, .eventFdRead, .wake, .work, .push 2, .workDone, .write,
    .complete, .ioDone .read, .push 3]

/-- As many sends as the ring has places run in one go, and one more is posted. -/
def sendsFillTheRing : List (LoopEvent Nat) :=
  List.replicate queueDepth (.push 0) ++ [.run, .submit, .write, .eventFdRead, .wake]
    ++ (List.replicate queueDepth [.work, .prepare]).flatten ++ [.push 1]

theorem posted_work_runs_unless_clogged :
    (∃ l : IoUringLoop Nat, l.posted = [1, 2, 3] ∧ l.ran = [1]
      ∧ ∀ l₁, Alone l l₁ → ∃ l₂, Alone l₁ l₂ ∧ l₂.ran = l.posted)
    ∧ ∃ l : IoUringLoop Nat, l.workQueue = [1]
      ∧ ¬∀ l₁, Alone l l₁ → ∃ l₂, Alone l₁ l₂ ∧ l₂.ran = l.posted := by
  constructor
  · obtain ⟨l, run, hposted, hran, hprepared⟩ := exists_of_replay step (fun _ _ _ => True) {}
      postsWhileWorking
      (P := fun l => l.posted = [1, 2, 3] ∧ l.ran = [1] ∧ l.prepared = 1) (by decide)
    have hfits : l.ReadFits := fun hzero => by simp [hprepared] at hzero
    exact ⟨l, hposted, hran, (posted_work_runs run).2.mpr fun hclogged => hclogged.2.1 hfits⟩
  · obtain ⟨l, run, hqueue, hphase, hzero, hfull⟩ := exists_of_replay step (fun _ _ _ => True) {}
      sendsFillTheRing
      (P := fun l => l.workQueue = [1] ∧ l.phase = .working ∧ l.prepared = 0
        ∧ l.requests = queueDepth) (by decide +kernel)
    refine ⟨l, hqueue, fun hruns => (posted_work_runs run).2.mp hruns ?_⟩
    exact ⟨by simp [hqueue], not_readFits.mpr ⟨hzero, Nat.le_of_eq hfull.symm⟩, by simp [hphase],
      by simp [hphase]⟩

end IoUringLoop

end VsrKv
