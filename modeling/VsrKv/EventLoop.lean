import VsrKv.TransitionSystem

/-!
# The event loop

`IoUringLoop`: a work queue behind a lock, an eventfd to wake the loop
with, and a ring the kernel puts completions on. Any thread may post at
any time, the loop's own callbacks among them, and a post is two steps,
the `push_back` under the lock and the write to the eventfd; the kernel
completes requests whenever it likes. `run` goes round: submit what has
been prepared and wait for a completion, swap the work queue out and
run what was on it, go through the completions.

One read of the eventfd is always on its way to wake the loop, and the
weak point is the next one. It needs a place on the ring beside the
requests that work and callbacks have prepared, and `post_eventfd_read`
does not look whether there is one: on a full ring the process dies.
-/

namespace VsrKv

open TransitionSystem

inductive RequestType where
  | accept
  | read
  | write
  | connect
  | timeout
  | eventfd
deriving DecidableEq

/-- Where the thread in `run` is; `crashed` is the end of the process. -/
inductive LoopPhase where
  | created
  | submitting
  | waiting
  | working
  | completing
  | crashed
deriving DecidableEq

/-- The loop and the kernel's part in it. `prepared` and `reading` count the reads of the
eventfd that are not yet submitted and those in flight, `requests` the other requests not
yet submitted, and `posting` the posts between `push_back` and `write`. `posted` and `ran`
are records the program does not keep. -/
structure IoUringLoop (ω : Type) where
  workQueue : List ω := []
  currentWork : List ω := []
  phase : LoopPhase := .created
  eventFd : Nat := 0
  posting : Nat := 0
  prepared : Nat := 0
  requests : Nat := 0
  reading : Nat := 0
  completions : List RequestType := []
  posted : List ω := []
  ran : List ω := []
deriving DecidableEq

/-- `push` and `write` are the two halves of `post`, `prepare` a call of one of the
`submit_` functions, which start-up, work and callbacks make, `run` to `loopAround` what
the thread in `run` does, and the last three the kernel. A read of the eventfd returns
the counter and resets it, or fails if the counter is 0. -/
inductive LoopEvent (ω : Type) where
  | push (work : ω)
  | write
  | prepare
  | run
  | submit
  | wake
  | work
  | workDone
  | complete
  | loopAround
  | eventFdRead
  | eventFdAgain
  | ioDone (type : RequestType)
deriving DecidableEq

/-- A step of the thread in `run`, or the completion of the read of the eventfd. -/
def LoopEvent.ofLoop {ω : Type} : LoopEvent ω → Bool
  | .push _ | .write | .ioDone _ => false
  | _ => true

namespace IoUringLoop

variable {ω : Type}

/-- The largest value an eventfd counts to; a nonblocking write beyond it fails. -/
def eventFdMax : Nat := 0xFFFFFFFFFFFFFFFE

/-- The places on the ring for requests not yet submitted. -/
def queueDepth : Nat := 256

/-- `io_uring_get_sqe` has a place to give. -/
def HasRoom (l : IoUringLoop ω) : Prop := l.prepared + l.requests < queueDepth

instance (l : IoUringLoop ω) : Decidable l.HasRoom := inferInstanceAs (Decidable (_ < _))

/-- The place is written to without looking whether there is one. -/
def postEventFdRead (l : IoUringLoop ω) : IoUringLoop ω :=
  if l.HasRoom then { l with prepared := l.prepared + 1 } else { l with phase := .crashed }

/-- The `submit_` functions, which look, and return if there is none. -/
def submitRequest (l : IoUringLoop ω) : IoUringLoop ω :=
  if l.HasRoom then { l with requests := l.requests + 1 } else l

/-- What happens in a process that lives. -/
def advance (l : IoUringLoop ω) : LoopEvent ω → Option (IoUringLoop ω)
  | .push work =>
      some { l with
        workQueue := l.workQueue ++ [work], posting := l.posting + 1, posted := l.posted ++ [work] }
  | .write =>
      if 0 < l.posting then
        some { l with posting := l.posting - 1, eventFd := min (l.eventFd + 1) eventFdMax }
      else none
  | .prepare =>
      if l.phase = .created ∨ l.phase = .working ∨ l.phase = .completing then
        some l.submitRequest
      else none
  | .run =>
      if l.phase = .created then some { l with phase := .submitting }.postEventFdRead else none
  | .submit =>
      if l.phase = .submitting then
        some { l with
          phase := .waiting, prepared := 0, requests := 0, reading := l.reading + l.prepared }
      else none
  | .wake =>
      -- `io_uring_submit_and_wait` returns, and `process_work_queue` swaps the queues.
      if l.phase = .waiting ∧ l.completions ≠ [] then
        some { l with phase := .working, currentWork := l.workQueue, workQueue := [] }
      else none
  | .work =>
      if l.phase = .working then
        match l.currentWork with
        | work :: rest => some { l with currentWork := rest, ran := l.ran ++ [work] }
        | [] => none
      else none
  | .workDone =>
      if l.phase = .working ∧ l.currentWork = [] then some { l with phase := .completing }
      else none
  | .complete =>
      if l.phase = .completing then
        match l.completions with
        | .eventfd :: rest => some { l with completions := rest }.postEventFdRead
        | _ :: rest => some { l with completions := rest }
        | [] => none
      else none
  | .loopAround =>
      if l.phase = .completing ∧ l.completions = [] then some { l with phase := .submitting }
      else none
  | .eventFdRead =>
      if 0 < l.reading ∧ 0 < l.eventFd then
        some { l with
          reading := l.reading - 1, eventFd := 0, completions := l.completions ++ [.eventfd] }
      else none
  | .eventFdAgain =>
      if 0 < l.reading ∧ l.eventFd = 0 then
        some { l with reading := l.reading - 1, completions := l.completions ++ [.eventfd] }
      else none
  | .ioDone type =>
      if type ≠ .eventfd then some { l with completions := l.completions ++ [type] } else none

def step (l : IoUringLoop ω) (e : LoopEvent ω) : Option (IoUringLoop ω) :=
  if l.phase = .crashed then none else l.advance e

theorem step_eq_some {l l' : IoUringLoop ω} {e : LoopEvent ω} :
    l.step e = some l' ↔ l.phase ≠ .crashed ∧ l.advance e = some l' := by
  simp [step]

/-! ## What every step keeps -/

/-- The next read of the eventfd is prepared, or there is a place for it. -/
def ReadFits (l : IoUringLoop ω) : Prop := l.prepared = 0 → l.requests < queueDepth

/-- What is posted has run, is running or is queued, in that order; and while the loop
runs, one read of the eventfd is prepared, in flight or completed. -/
structure Sound (l : IoUringLoop ω) : Prop where
  posted : l.posted = l.ran ++ l.currentWork ++ l.workQueue
  working : l.phase ≠ .working → l.currentWork = []
  waiting : l.phase = .waiting → l.prepared = 0
  created : l.phase = .created → l.prepared + l.reading + l.completions.count .eventfd = 0
  reads : l.phase ≠ .created → l.phase ≠ .crashed →
    l.prepared + l.reading + l.completions.count .eventfd = 1
  crashed : l.phase = .crashed → ¬l.ReadFits

theorem sound_init : Sound ({} : IoUringLoop ω) :=
  ⟨rfl, fun _ => rfl, fun h => (by cases h), fun _ => rfl, fun h => absurd rfl h,
    fun h => (by cases h)⟩

theorem not_readFits {l : IoUringLoop ω} :
    ¬l.ReadFits ↔ l.prepared = 0 ∧ queueDepth ≤ l.requests := by
  simp [ReadFits]

theorem not_readFits_of_full {l : IoUringLoop ω} (hprepared : l.prepared = 0)
    (hroom : ¬l.HasRoom) : ¬l.ReadFits := by
  unfold HasRoom at hroom
  exact not_readFits.mpr ⟨hprepared, by omega⟩

/-- The step that has a read of the eventfd to prepare, and none prepared yet. -/
theorem Sound.postEventFdRead {l : IoUringLoop ω}
    (hposted : l.posted = l.ran ++ l.currentWork ++ l.workQueue) (hcurrent : l.currentWork = [])
    (hphase : l.phase ≠ .created ∧ l.phase ≠ .waiting ∧ l.phase ≠ .crashed)
    (hreads : l.prepared + l.reading + l.completions.count .eventfd = 0) :
    Sound l.postEventFdRead := by
  unfold IoUringLoop.postEventFdRead
  split
  · exact ⟨hposted, fun _ => hcurrent, fun h => absurd h hphase.2.1, fun h => absurd h hphase.1,
      fun _ _ => by simp only []; omega, fun h => absurd h hphase.2.2⟩
  · rename_i hroom
    exact ⟨hposted, fun _ => hcurrent, fun h => (by cases h), fun h => (by cases h),
      fun _ h => absurd rfl h, fun _ => not_readFits_of_full (by simp only []; omega) hroom⟩

theorem Sound.step {l l' : IoUringLoop ω} {e : LoopEvent ω} (h : Sound l)
    (hstep : l.step e = some l') : Sound l' := by
  obtain ⟨hposted, hworking, hwaiting, hcreated, hreads, hcrashed⟩ := h
  obtain ⟨halive, hstep⟩ := step_eq_some.mp hstep
  cases e with
  | push work =>
      obtain rfl := Option.some.inj hstep
      exact ⟨by simp [hposted], hworking, hwaiting, hcreated, hreads, hcrashed⟩
  | write =>
      simp only [advance, Option.ite_none_right_eq_some, Option.some.injEq] at hstep
      obtain ⟨-, rfl⟩ := hstep
      exact ⟨hposted, hworking, hwaiting, hcreated, hreads, hcrashed⟩
  | prepare =>
      simp only [advance, Option.ite_none_right_eq_some, Option.some.injEq] at hstep
      obtain ⟨-, rfl⟩ := hstep
      unfold submitRequest
      split
      · exact ⟨hposted, hworking, hwaiting, hcreated, hreads, fun h => absurd h halive⟩
      · exact ⟨hposted, hworking, hwaiting, hcreated, hreads, hcrashed⟩
  | run =>
      simp only [advance, Option.ite_none_right_eq_some, Option.some.injEq] at hstep
      obtain ⟨hphase, rfl⟩ := hstep
      exact Sound.postEventFdRead hposted (hworking (by simp [hphase])) (by simp) (hcreated hphase)
  | submit =>
      simp only [advance, Option.ite_none_right_eq_some, Option.some.injEq] at hstep
      obtain ⟨hphase, rfl⟩ := hstep
      have hone := hreads (by simp [hphase]) halive
      exact ⟨hposted, fun _ => hworking (by simp [hphase]), fun _ => rfl, fun h => (by cases h),
        fun _ _ => by simp only []; omega, fun h => (by cases h)⟩
  | wake =>
      simp only [advance, Option.ite_none_right_eq_some, Option.some.injEq] at hstep
      obtain ⟨⟨hphase, -⟩, rfl⟩ := hstep
      refine ⟨?_, fun h => absurd rfl h, fun h => (by cases h), fun h => (by cases h),
        fun _ _ => hreads (by simp [hphase]) halive, fun h => (by cases h)⟩
      simpa [hworking (by simp [hphase])] using hposted
  | work =>
      simp only [advance, Option.ite_none_right_eq_some] at hstep
      obtain ⟨hphase, hstep⟩ := hstep
      split at hstep
      · rename_i work rest hcurrent
        obtain rfl := Option.some.inj hstep
        exact ⟨by simpa [hcurrent] using hposted, fun h => absurd hphase h, hwaiting, hcreated,
          hreads, hcrashed⟩
      · cases hstep
  | workDone =>
      simp only [advance, Option.ite_none_right_eq_some, Option.some.injEq] at hstep
      obtain ⟨⟨hphase, hcurrent⟩, rfl⟩ := hstep
      exact ⟨hposted, fun _ => hcurrent, fun h => (by cases h), fun h => (by cases h),
        fun _ _ => hreads (by simp [hphase]) halive, fun h => (by cases h)⟩
  | complete =>
      simp only [advance, Option.ite_none_right_eq_some] at hstep
      obtain ⟨hphase, hstep⟩ := hstep
      have hone := hreads (by simp [hphase]) halive
      have hcurrent := hworking (by simp [hphase])
      split at hstep
      · rename_i rest hcompletions
        obtain rfl := Option.some.inj hstep
        rw [hcompletions, List.count_cons_self] at hone
        exact Sound.postEventFdRead hposted hcurrent (by simp [hphase]) (by simp only []; omega)
      · rename_i type rest hne hcompletions
        obtain rfl := Option.some.inj hstep
        rw [hcompletions, List.count_cons_of_ne hne] at hone
        exact ⟨hposted, hworking, hwaiting, fun h => (by simp [hphase] at h), fun _ _ => hone,
          hcrashed⟩
      · cases hstep
  | loopAround =>
      simp only [advance, Option.ite_none_right_eq_some, Option.some.injEq] at hstep
      obtain ⟨⟨hphase, -⟩, rfl⟩ := hstep
      exact ⟨hposted, fun _ => hworking (by simp [hphase]), fun h => (by cases h),
        fun h => (by cases h), fun _ _ => hreads (by simp [hphase]) halive, fun h => (by cases h)⟩
  | eventFdRead | eventFdAgain =>
      simp only [advance, Option.ite_none_right_eq_some, Option.some.injEq] at hstep
      obtain ⟨⟨hreading, -⟩, rfl⟩ := hstep
      refine ⟨hposted, hworking, hwaiting, fun h => ?_, fun h _ => ?_, hcrashed⟩
      · have := hcreated h
        omega
      · have hone := hreads h halive
        simp only [List.count_append, List.count_singleton_self]
        omega
  | ioDone type =>
      simp only [advance, Option.ite_none_right_eq_some, Option.some.injEq] at hstep
      obtain ⟨htype, rfl⟩ := hstep
      have hcount : (l.completions ++ [type]).count .eventfd = l.completions.count .eventfd := by
        simp [List.count_append, htype]
      refine ⟨hposted, hworking, hwaiting, fun h => ?_, fun h h' => ?_, hcrashed⟩
      · simpa only [hcount] using hcreated h
      · simpa only [hcount] using hreads h h'

theorem sound_run {ok : IoUringLoop ω → LoopEvent ω → IoUringLoop ω → Prop} {l : IoUringLoop ω}
    (run : Steps step ok {} l) : Sound l :=
  run.invariant sound_init fun _ _ _ _ hstep _ h => h.step hstep

/-- What has not begun to run, in the order in which it will. -/
def queued (l : IoUringLoop ω) : List ω := l.currentWork ++ l.workQueue

@[simp] theorem postEventFdRead_queued (l : IoUringLoop ω) :
    l.postEventFdRead.queued = l.queued := by
  unfold postEventFdRead
  split <;> rfl

/-- Work is queued by a post and taken off to run; nothing else moves it. -/
theorem Sound.queued {l l' : IoUringLoop ω} {e : LoopEvent ω} (h : Sound l)
    (hstep : l.step e = some l') :
    (∃ work, e = .push work ∧ l'.queued = l.queued ++ [work])
      ∨ (∃ work rest, e = .work ∧ l.currentWork = work :: rest ∧ l.queued = work :: l'.queued)
      ∨ ((∀ work, e ≠ .push work) ∧ e ≠ .work ∧ l'.queued = l.queued) := by
  obtain ⟨-, hstep⟩ := step_eq_some.mp hstep
  cases e with
  | push work =>
      obtain rfl := Option.some.inj hstep
      exact Or.inl ⟨work, rfl, by simp [IoUringLoop.queued]⟩
  | prepare =>
      simp only [advance, Option.ite_none_right_eq_some, Option.some.injEq] at hstep
      obtain ⟨-, rfl⟩ := hstep
      refine Or.inr (Or.inr ⟨by simp, by simp, ?_⟩)
      unfold submitRequest
      split <;> rfl
  | run =>
      simp only [advance, Option.ite_none_right_eq_some, Option.some.injEq] at hstep
      obtain ⟨-, rfl⟩ := hstep
      exact Or.inr (Or.inr ⟨by simp, by simp, postEventFdRead_queued _⟩)
  | work =>
      simp only [advance, Option.ite_none_right_eq_some] at hstep
      obtain ⟨-, hstep⟩ := hstep
      split at hstep
      · rename_i work rest hcurrent
        obtain rfl := Option.some.inj hstep
        exact Or.inr (Or.inl ⟨work, rest, rfl, hcurrent, by simp [IoUringLoop.queued, hcurrent]⟩)
      · cases hstep
  | wake =>
      simp only [advance, Option.ite_none_right_eq_some, Option.some.injEq] at hstep
      obtain ⟨⟨hphase, -⟩, rfl⟩ := hstep
      have hcurrent := h.working (by simp [hphase])
      exact Or.inr (Or.inr ⟨by simp, by simp, by simp [IoUringLoop.queued, hcurrent]⟩)
  | complete =>
      simp only [advance, Option.ite_none_right_eq_some] at hstep
      obtain ⟨-, hstep⟩ := hstep
      split at hstep
      · obtain rfl := Option.some.inj hstep
        exact Or.inr (Or.inr ⟨by simp, by simp, postEventFdRead_queued _⟩)
      · obtain rfl := Option.some.inj hstep
        exact Or.inr (Or.inr ⟨by simp, by simp, rfl⟩)
      · cases hstep
  | _ =>
      simp only [advance, Option.ite_none_right_eq_some, Option.some.injEq] at hstep
      obtain ⟨-, rfl⟩ := hstep
      exact Or.inr (Or.inr ⟨by simp, by simp, rfl⟩)

/-- Only the end of its work takes the thread on to the completions. -/
theorem step_working {l l' : IoUringLoop ω} {e : LoopEvent ω} (hstep : l.step e = some l')
    (hphase : l.phase = .working) (he : e ≠ .workDone) : l'.phase = .working := by
  obtain ⟨-, hstep⟩ := step_eq_some.mp hstep
  cases e with
  | push work =>
      obtain rfl := Option.some.inj hstep
      exact hphase
  | prepare =>
      simp only [advance, Option.ite_none_right_eq_some, Option.some.injEq] at hstep
      obtain ⟨-, rfl⟩ := hstep
      unfold submitRequest
      split <;> exact hphase
  | run | submit | wake | complete | loopAround => simp [advance, hphase] at hstep
  | work =>
      simp only [advance, Option.ite_none_right_eq_some] at hstep
      obtain ⟨-, hstep⟩ := hstep
      split at hstep
      · obtain rfl := Option.some.inj hstep
        exact hphase
      · cases hstep
  | workDone => exact absurd rfl he
  | _ =>
      simp only [advance, Option.ite_none_right_eq_some, Option.some.injEq] at hstep
      obtain ⟨-, rfl⟩ := hstep
      exact hphase

end IoUringLoop

end VsrKv
