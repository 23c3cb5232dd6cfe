import Mathlib.Data.Finset.Max
import VsrKv.Convergence
import VsrKv.Linearizability
import VsrKv.RequestOrder

/-!
# What clients see

The cluster from outside: requests that arrive and replies that leave.
As long as no request is logged twice, and no resend is answered before
its request has been executed, this is a history of one sequential
key-value store that every client talks to (`linearizable`), whichever
replicas lead, lose their messages or give up on each other.

The order is the log's. That each reply is what the store returns there
is about execution (`answers_store`); that the log's order is one the
clients may have seen is about when requests were first heard of
(`Timed`), and uses that whoever has executed an op has executed all
below it.
-/

namespace VsrKv

open Replica Viewstamped TransitionSystem Linearizability
open Event (process receive request)
open Words (isSpace)

/-! ## The store -/

/-- The key-value store that clients think they talk to. -/
def store : SeqObject (StdMap Bytes Bytes) (Operation × Bytes) Bytes where
  init := ∅
  apply m
    | (.set, payload) =>
        let key := Words.word isSpace 0 payload
        let value := Words.word isSpace 1 payload
        (m.insert key value, setResult key value)
    | (.get, payload) => (m, m[Words.word isSpace 0 payload]?.getD notFound)
    | _ => (m, [])

def LogEntry.input (e : LogEntry) : Operation × Bytes := (e.opType, e.payload)

theorem applyOperation_store (m : StdMap Bytes Bytes) (e : LogEntry) :
    applyOperation m e = store.apply m e.input := by
  obtain ⟨hkey, hvalue⟩ := nextToken_eq e.payload
  rw [applyOperation.eq_def, LogEntry.input]
  cases h : e.opType with
  | set => simp only [store, ← hkey, ← hvalue]
  | get => simp only [store, ← hkey]
  | reserved | update | other => rfl

theorem applyAll_store (l : List LogEntry) : applyAll l = store.after (l.map LogEntry.input) := by
  induction l using List.reverseRecOn with
  | nil => rfl
  | append_singleton l e ih =>
      rw [applyAll_append, List.map_append, List.map_singleton, SeqObject.after_concat, ← ih,
        applyOperation_store]

/-! ## Calls -/

abbrev ClientCall : Type := Call (UInt128 × Nat) (Operation × Bytes) Bytes

def Event.invoked? : Event → Option ClientCall
  | .client _ _ msg =>
      if msg.header.command = .request then
        some (.invoke (msg.header.client, msg.header.request) (msg.header.operation, msg.payload))
      else none
  | _ => none

def Effect.responded? (eff : Effect) : Option ClientCall :=
  eff.message?.bind fun m =>
    if m.header.command = .reply then
      some (.respond (m.header.client, m.header.request) m.payload)
    else none

namespace Cluster

/-- What clients see of a step. -/
def stepCalls (c : Cluster) (ev : Event) (c' : Cluster) : List ClientCall :=
  ev.invoked?.toList ++ (c'.trace.drop c.trace.length).filterMap (·.2.responded?)

/-- What clients see of the events `es`. -/
def calls (c : Cluster) : List Event → List ClientCall
  | [] => []
  | ev :: es =>
      match c.step ev with
      | none => []
      | some c' => c.stepCalls ev c' ++ c'.calls es

variable {ok : Cluster → Event → Cluster → Prop} {s c c' : Cluster} {ev : Event}
  {es : List Event}

theorem calls_append (path : Path step ok s es c) (es' : List Event) :
    s.calls (es ++ es') = s.calls es ++ c.calls es' := by
  induction path generalizing es' with
  | nil => rfl
  | @snoc u v es ev path hstep hok ih =>
      have hone : ∀ es', u.calls (ev :: es') = u.stepCalls ev v ++ v.calls es' := fun es' => by
        rw [calls, hstep]
      rw [List.append_assoc, List.singleton_append, ih, ih [ev], hone, hone, List.append_assoc,
        List.append_assoc]
      rfl

theorem calls_snoc (path : Path step ok s es c) (hstep : c.step ev = some c') :
    s.calls (es ++ [ev]) = s.calls es ++ c.stepCalls ev c' := by
  rw [calls_append path, calls, hstep]
  exact congrArg _ (List.append_nil _)

/-- Requests are seen to be made. -/
theorem mem_calls_of_submitted (path : Path step ok s es c) {x : Submission}
    (h : Submitted es x) :
    Call.invoke (x.1, x.2.1) x.2.2 ∈ s.calls es := by
  induction path with
  | nil => obtain ⟨i, fd, msg, hmem, -⟩ := h; cases hmem
  | @snoc u v es ev path hstep hok ih =>
      rw [calls_snoc path hstep]
      obtain ⟨i, fd, msg, hmem, hcmd, rfl⟩ := h
      rcases List.mem_append.mp hmem with hmem | hmem
      · exact List.mem_append_left _ (ih ⟨i, fd, msg, hmem, hcmd, rfl⟩)
      · obtain rfl := List.mem_singleton.mp hmem
        refine List.mem_append_right _ (List.mem_append_left _ ?_)
        simp [Event.invoked?, hcmd, VsrMessage.submission]

end Cluster

/-! ## What is returned -/

/-- The turn at `n` executed entry `n` of `l`, and returned what the store does
after the entries before it. -/
def AnsweredBy (l : List LogEntry) (n : Nat) (e : LogEntry) (res : Option Bytes) : Prop :=
  entryAt l n = some e.strip
    ∧ res = some (store.returns ((l.take (n - 1)).map LogEntry.input) e.input)

theorem AnsweredBy.mono {l l' : List LogEntry} (hle : l <+: l') {n : Nat} {e : LogEntry}
    {res : Option Bytes} (h : AnsweredBy l n e res) : AnsweredBy l' n e res := by
  obtain ⟨hentry, hres⟩ := h
  have hn := (entryAt_isSome hentry).2
  exact ⟨entryAt_mono hle hentry, by rw [hres, take_eq_of_le hle (by omega)]⟩

/-- Who has applied more decided entries has applied the same ones first. -/
theorem Applied.prefix_of_le {D : Nat → LogEntry → Prop} {past past' : List Effect}
    {s s' : ReplicaState} {l l' : List LogEntry} (h : Applied D past s l)
    (h' : Applied D past' s' l') (hD : ∀ n e e', D n e → D n e' → e.strip = e'.strip)
    (hle : s.lastExecutedOp ≤ s'.lastExecutedOp) : l <+: l' := by
  rw [← h.length, ← h'.length] at hle
  rw [List.prefix_iff_eq_take]
  refine List.ext_getElem (by simpa using hle) ?_
  intro k hk hk'
  have hk₂ : k < l'.length := by omega
  have he : entryAt l (k + 1) = some l[k] := List.getElem?_eq_getElem hk
  have he' : entryAt l' (k + 1) = some l'[k] := List.getElem?_eq_getElem hk₂
  have hagree := hD (k + 1) _ _ (h.decided _ _ he) (h'.decided _ _ he')
  rw [h.strip _ (List.getElem_mem hk), h'.strip _ (List.getElem_mem hk₂)] at hagree
  rw [List.getElem_take, hagree]

/-- A turn at a decided entry, after decided entries have been applied. -/
theorem Applied.answeredBy {D : Nat → LogEntry → Prop} {past past' : List Effect}
    {s s' : ReplicaState} {l l' : List LogEntry} (h : Applied D past s l)
    (h' : Applied D past' s' l') (hD : ∀ n e e', D n e → D n e' → e.strip = e'.strip)
    (honce : Once D) {e : LogEntry} (hdec : D (s.lastExecutedOp + 1) e)
    (hle : s.lastExecutedOp + 1 ≤ s'.lastExecutedOp) :
    AnsweredBy l' (s.lastExecutedOp + 1) e (turnResult s e) := by
  have hprefix := h.prefix_of_le h' hD (by omega)
  have hlen := h'.length
  constructor
  · obtain ⟨e', he'⟩ := exists_entryAt (l := l') (n := s.lastExecutedOp + 1) (by omega) (by omega)
    rw [he', ← h'.strip e' (mem_of_entryAt he'), hD _ _ _ (h'.decided _ _ he') hdec]
  · have htake : l'.take s.lastExecutedOp = l := by
      rw [← h.length]
      exact (List.prefix_iff_eq_take.mp hprefix).symm
    rw [turnResult, if_neg (h.not_skips honce hdec), h.machine, applyOperation_store,
      applyAll_store, Nat.add_sub_cancel, htake]
    rfl

section

variable {f : Nat} {c c' : Cluster} {a a' : Abs} {ev : Event}

/-- Every turn has returned what the store returns. -/
structure Serves (f : Nat) (c : Cluster) (a : Abs) : Prop where
  converges : Converges f c a
  order : ∀ i, InOrder (c.opsPassed i) (c.state i)
  answered : ∀ i < c.size, ∀ l, Applied (Decided f a) (c.history i) (c.state i) l →
    ∀ v n e res, Effect.executed v n e res ∈ c.history i → AnsweredBy l n e res

theorem Converges.agree (h : Converges f c a) :
    ∀ n e e', Decided f a n e → Decided f a n e' → e.strip = e'.strip :=
  fun _ _ _ ⟨_, hperf⟩ ⟨_, hperf'⟩ => h.safe.performed_agree hperf hperf'

theorem Serves.step (h : Serves f c a) (hsmall : 2 * f + 1 ≤ 2 ^ 8) (hstep : c.step ev = some c')
    (hok : c.FreshRequests ev c') : ∃ a', Serves f c' a' ∧ Extends a a' := by
  obtain ⟨a', h', hext⟩ := h.converges.step hsmall hstep hok
  have hmoves := Cluster.step_moves h.converges.safe.refines.static hstep
  refine ⟨a', ⟨h', fun i => (hmoves.inOrder (h.order i)).1, ?_⟩, hext⟩
  intro i hi l' hl' v n e res hmem
  have hi₀ : i < c.size := hmoves.size ▸ hi
  have hstatus := (hok.1.2.2.2 i hi₀).1
  obtain ⟨l, hl₀⟩ := h.converges.applied i hi₀
  have hl : Applied (Decided f a') (c.history i) (c.state i) l :=
    hl₀.mono fun n e ⟨v, hperf⟩ => ⟨v, hperf.mono hext⟩
  have hkeeps : Cluster.KeepsProgress i c ev c' := ⟨by rw [hok.1.2.1]; simp, hstatus⟩
  obtain ⟨k, -, hlast⟩ := (hmoves.inOrder (h.order i)).2 hkeeps
  rcases hmoves.mem_history hmem with
    hold | ⟨m, heq, -⟩ | ⟨env, im, rest, effs, -, -, hexec, -, hnew⟩
  · exact (h.answered i hi₀ l hl₀ v n e res hold).mono
      (hl.prefix_of_le hl' h'.agree (by omega))
  · cases heq
  · -- the turn is made in this step, at an entry that is decided by now
    cases hexec with
    | idle _ _ _ hturn => cases hturn _ hnew
    | stretch s₁ s₂ before chain after heffs hbegins hexec hends hst hother =>
        rw [heffs, List.append_assoc, List.mem_append, List.mem_append] at hnew
        have hchain : Effect.executed v n e res ∈ chain := by
          rcases hnew with hnew | hnew | hnew
          · cases (hother _ (List.mem_append_left _ hnew)).1
          · exact hnew
          · cases (hother _ (List.mem_append_right _ hnew)).1
        obtain ⟨s₃, effs₃, hexec₃, rfl, hcommit, hlog, rfl, hle⟩ := hexec.exists_turn hchain
        have hbegin : Applied (Decided f a') (c.history i) s₁ l := by
          cases hbegins with
          | onward hop hmachine htable => exact hl.of_same hop hmachine htable
          | again hrec => exact absurd hrec hstatus
        obtain ⟨nonce, responses, heq⟩ := hends
        have hdec : ∀ n e, n ≤ s₁.commit → s₁.log[n]? = some e → Decided f a' n e := by
          intro n e hn he
          have htracks := h'.safe.refines.nodes i hi
          obtain ⟨k, t, m, rfl⟩ := hexec.state
          refine ⟨_, htracks.performed h'.safe.refines.inv (h'.safe.refines.lt hi) ?_ ?_ ?_⟩
          · simp [hst]
          · rw [heq]; exact hn
          · rw [heq]; exact he
        obtain ⟨l₃, hl₃⟩ := hexec₃.applied hbegin h'.once (fun n e ⟨v, hperf⟩ => ⟨v, hperf⟩) hdec
        refine hl₃.answeredBy hl' h'.agree h'.once ?_ (by rw [heq]; exact hle)
        obtain ⟨k, t, m, rfl⟩ := hexec₃.state
        exact hdec _ _ hcommit hlog

theorem serves_init (f : Nat) :
    Serves f (Cluster.init (2 * f + 1)) (Viewstamped.initial {}) where
  converges := converges_init f
  order i := ⟨List.isChain_singleton _, Or.inl rfl⟩
  answered i _ l _ v n e res hmem := by cases hmem

/-- There is one log that all turns of all replicas agree with, made of executed
entries with no request twice. -/
theorem Serves.exists_log (h : Serves f c a)
    (hlt : ∀ i eff, (i, eff) ∈ c.trace → i < c.size) :
    ∃ l : List LogEntry, (l.map LogEntry.key).Nodup
      ∧ (∀ e ∈ l, ∃ i v n e' res, (i, Effect.executed v n e' res) ∈ c.trace ∧ e'.strip = e)
      ∧ ∀ i v n e res, (i, Effect.executed v n e res) ∈ c.trace → AnsweredBy l n e res := by
  -- that of a replica that has got furthest
  have hsize := h.converges.safe.refines.size
  obtain ⟨i, hi, hmax⟩ := Finset.exists_max_image (Finset.range c.size)
    (fun i => (c.state i).lastExecutedOp) ⟨0, Finset.mem_range.mpr (by omega)⟩
  obtain ⟨l, hl⟩ := h.converges.applied i (Finset.mem_range.mp hi)
  refine ⟨l, ?_, ?_, ?_⟩
  · rw [← hl.past]
    exact hl.nodup h.converges.once
  · intro e he
    obtain ⟨n, hn⟩ := exists_entryAt_of_mem he
    obtain ⟨hpos, hle⟩ := entryAt_isSome hn
    rw [hl.length] at hle
    have hpassed : n ∈ c.opsPassed i := by
      rcases (h.order i).last with hzero | hlast
      · omega
      · exact (h.order i).climbs.mem_of_le (List.mem_of_getLast? hlast) hpos hle
    obtain ⟨v, e', res, hexec⟩ := Cluster.mem_opsPassed.mp hpassed
    have hanswered := h.answered i (Finset.mem_range.mp hi) l hl v n e' res
      (Cluster.mem_history.mpr hexec)
    exact ⟨i, v, n, e', res, hexec, Option.some.inj (hanswered.1.symm.trans hn)⟩
  · intro j v n e res hexec
    have hj := hlt j _ hexec
    obtain ⟨l', hl'⟩ := h.converges.applied j hj
    exact (h.answered j hj l' hl' v n e res (Cluster.mem_history.mpr hexec)).mono
      (hl'.prefix_of_le hl h.converges.agree (hmax j (Finset.mem_range.mpr hj)))

end

/-! ## What clients are told -/

namespace Cluster

variable {c c' : Cluster} {ev : Event}

/-- A request that is answered from the client table has been executed. -/
def AnswersKnown (c : Cluster) (ev : Event) : Prop :=
  ∀ i ∈ ev.ticked?, ∀ im ∈ (c.queue i).head?, answersCached (c.state i) im.message = true →
    ((c.state i).clientEntry im.message.header.client).executed = true

instance (c : Cluster) (ev : Event) : Decidable (c.AnswersKnown ev) :=
  inferInstanceAs (Decidable (∀ i ∈ ev.ticked?, ∀ im ∈ (c.queue i).head?, _ → _))

/-- A step of a run with view changes only, in which no primary logs a request it
has in its log or answers one that is in progress. -/
def CarefulClients (c : Cluster) (ev : Event) (c' : Cluster) : Prop :=
  c.FreshRequests ev c' ∧ c.AnswersKnown ev

instance (c : Cluster) (ev : Event) (c' : Cluster) : Decidable (c.CarefulClients ev c') :=
  inferInstanceAs (Decidable (_ ∧ _))

/-- Every reply has the result of a request that its sender has executed. -/
def RepliesExecuted (c : Cluster) : Prop :=
  ∀ i eff m, (i, eff) ∈ c.trace → eff.message? = some m → m.header.command = .reply →
    ∃ v n e, (i, Effect.executed v n e (some m.payload)) ∈ c.trace
      ∧ e.key = (m.header.client, m.header.request)

theorem RepliesExecuted.step (h : c.RepliesExecuted) (htables : c.TablesRecorded)
    (hmoves : Moves c ev c') (hknown : c.AnswersKnown ev) : c'.RepliesExecuted := by
  intro i eff m hmem hm hreply
  rcases hmoves.mem_history (mem_history.mpr hmem) with
    hold | ⟨m', rfl, hno⟩ | ⟨env, im, rest, effs, rfl, hqueue, hexec, hhistory, hnew⟩
  · obtain ⟨v, n, e, hexec, hkey⟩ := h i eff m (mem_history.mp hold) hm hreply
    exact ⟨v, n, e, hmoves.trace_subset hexec, hkey⟩
  · cases hm
    exact absurd hreply hno
  · cases hexec with
    | idle _ _ _ _ hanswer =>
        obtain ⟨hcached, rfl⟩ := hanswer eff hnew m hm hreply
        have hdone := hknown i rfl im (by rw [hqueue]; rfl) hcached
        obtain ⟨v, k, e, hexec, hclient, hnumber, -⟩ := htables i _ hdone
        refine ⟨v, k, e, hmoves.trace_subset (mem_history.mp hexec), ?_⟩
        simp only [answersCached, Bool.and_eq_true, beq_iff_eq] at hcached
        rw [LogEntry.key, hclient, hnumber, hcached.2]
        rfl
    | stretch s₁ s₂ before chain after heffs hbegins hexec hends hst hother =>
        have hin : ∀ {eff}, eff ∈ chain → (i, eff) ∈ c'.trace := fun heff => by
          refine mem_history.mp ?_
          rw [hhistory, heffs]
          simp [heff]
        rw [heffs, List.append_assoc, List.mem_append, List.mem_append] at hnew
        rcases hnew with hnew | hnew | hnew
        · exact absurd hreply ((hother _ (List.mem_append_left _ hnew)).2 m hm)
        · obtain ⟨v, n, e, hexec, hkey⟩ := hexec.answers eff hnew m hm
          exact ⟨v, n, e, hin hexec, hkey⟩
        · exact absurd hreply ((hother _ (List.mem_append_right _ hnew)).2 m hm)

theorem repliesExecuted_run {n : Nat} (run : Run CarefulClients (init n) c) :
    c.RepliesExecuted := by
  refine run.invariant (I := RepliesExecuted) (fun i eff m hmem => by cases hmem) ?_
  intro u ev v run hstep hok h
  exact h.step (tablesRecorded_run run) (step_moves (static_run run) hstep) hok.2

/-- At every moment, whatever a client has been told was executed, and all that was
executed up to there had been asked for. -/
def Timed (c : Cluster) (h : List ClientCall) : Prop :=
  ∀ h₁ key y, h₁ <+: h → Call.respond key y ∈ h₁ →
    ∃ i v n e, (i, Effect.executed v n e (some y)) ∈ c.trace ∧ e.key = key
      ∧ ∀ m, 1 ≤ m → m ≤ n → ∃ w e' res', (i, Effect.executed w m e' res') ∈ c.trace
        ∧ Call.invoke e'.key e'.input ∈ h₁

theorem Timed.mono {h : List ClientCall} (htrace : c.trace ⊆ c'.trace) (ht : c.Timed h) :
    c'.Timed h := by
  intro h₁ key y hle hmem
  obtain ⟨i, v, n, e, hexec, hkey, hbefore⟩ := ht h₁ key y hle hmem
  refine ⟨i, v, n, e, htrace hexec, hkey, fun m hm hmn => ?_⟩
  obtain ⟨w, e', res', hexec', hinvoked⟩ := hbefore m hm hmn
  exact ⟨w, e', res', htrace hexec', hinvoked⟩

/-- A reply that a step is seen to give. -/
theorem mem_stepCalls_respond {key : UInt128 × Nat} {y : Bytes}
    (h : Call.respond key y ∈ c.stepCalls ev c') :
    ∃ i eff m, (i, eff) ∈ c'.trace ∧ eff.message? = some m ∧ m.header.command = .reply
      ∧ (m.header.client, m.header.request) = key ∧ m.payload = y := by
  rcases List.mem_append.mp h with h | h
  · cases ev with
    | client i fd msg =>
        simp only [Event.invoked?] at h
        split at h <;> simp at h
    | _ => simp [Event.invoked?] at h
  · obtain ⟨⟨i, eff⟩, hmem, heff⟩ := List.mem_filterMap.mp h
    obtain ⟨m, hm, hcall⟩ := Option.bind_eq_some_iff.mp heff
    split at hcall
    · rename_i hreply
      cases hcall
      exact ⟨i, eff, m, List.mem_of_mem_drop hmem, hm, hreply, rfl, rfl⟩
    · cases hcall

theorem timed_path {n : Nat} {es : List Event} (path : Path step CarefulClients (init n) es c) :
    c.Timed ((init n).calls es) := by
  refine path.invariant (I := fun es c => c.Timed ((init n).calls es)) ?_ ?_
  · intro h₁ key y hle hmem
    rw [List.prefix_nil.mp hle] at hmem
    cases hmem
  intro es u ev v path hstep hok ih
  have htrace := (step_moves (static_run path.steps) hstep).trace_subset
  have path' : Path step CarefulClients (init n) (es ++ [ev]) v := .snoc path hstep hok
  intro h₁ key y hle hmem
  rw [calls_snoc path hstep] at hle
  rcases List.prefix_or_prefix_of_prefix hle (List.prefix_append _ _) with hle' | ⟨chunk, rfl⟩
  · exact ih.mono htrace h₁ key y hle' hmem
  rw [List.prefix_append_right_inj] at hle
  rcases List.mem_append.mp hmem with hmem | hmem
  · obtain ⟨i, w, k, e, hexec, hkey, hbefore⟩ := ih.mono htrace _ key y List.prefix_rfl hmem
    refine ⟨i, w, k, e, hexec, hkey, fun m hm hmk => ?_⟩
    obtain ⟨w', e', res', hexec', hinvoked⟩ := hbefore m hm hmk
    exact ⟨w', e', res', hexec', List.mem_append_left _ hinvoked⟩
  · -- what the step replies was executed by now, and nothing has been asked for since
    obtain ⟨i, eff, m, heff, hm, hreply, rfl, rfl⟩ := mem_stepCalls_respond (hle.subset hmem)
    obtain ⟨w, k, e, hexec, hkey⟩ := repliesExecuted_run path'.steps i eff m heff hm hreply
    refine ⟨i, w, k, e, hexec, hkey, fun j hj hjk => ?_⟩
    obtain ⟨w', e', res', hexec'⟩ := exists_executed_below path'.steps hexec hj hjk
    refine ⟨w', e', res', hexec', ?_⟩
    have hfits := opsFit_path (fun _ _ _ hok => hok.1.1.2.2.1) path'
    obtain ⟨i', fd, msg, hevent, hcmd, hsame⟩ :=
      (conveyed_path hfits).executed i w' j e' res' hexec'
    rcases List.mem_append.mp hevent with hevent | hevent
    · exact List.mem_append_left _ (mem_calls_of_submitted path ⟨i', fd, msg, hevent, hcmd, hsame⟩)
    · -- a step that begins with this request shows it first
      obtain rfl := List.mem_singleton.mp hevent
      refine List.mem_append_right _ ?_
      have hstart : u.stepCalls (.client i' fd msg) v
          = Call.invoke e'.key e'.input :: (v.trace.drop u.trace.length).filterMap
            (·.2.responded?) := by
        simp only [VsrMessage.submission, LogEntry.submission, Prod.mk.injEq] at hsame
        simp [stepCalls, Event.invoked?, hcmd, hsame, LogEntry.key, LogEntry.input]
      rw [hstart] at hle
      cases chunk with
      | nil => cases hmem
      | cons x chunk =>
          rw [(List.cons_prefix_cons.mp hle).1]
          exact List.mem_cons_self

end Cluster

/-- Clients see one sequential key-value store, across view changes, loss and
reordering, as long as nothing is logged twice or answered before it has been
executed. -/
theorem linearizable (f : Nat) (hsmall : 2 * f + 1 ≤ 256) {es : List Event} {c : Cluster}
    (path : Path Cluster.step Cluster.CarefulClients (Cluster.init (2 * f + 1)) es c) :
    Linearizable store ((Cluster.init (2 * f + 1)).calls es) := by
  obtain ⟨a, h, -⟩ := path.steps.simulation (R := Serves f) .refl .trans
    (fun h hstep hok => h.step hsmall hstep hok.1) (serves_init f)
  have hsize := h.converges.safe.refines.size
  obtain ⟨l, hnodup, hexecuted, hanswered⟩ := h.exists_log fun i eff hmem =>
    hsize ▸ Cluster.lt_of_mem_trace path.steps hmem
  have hfits := Cluster.opsFit_path (fun _ _ _ hok => hok.1.1.2.2.1) path
  have htimed := Cluster.timed_path path
  refine ⟨l.map fun e => (e.key, e.input), linearizes_of_logged ?_ ?_ ?_⟩
  · rw [List.map_map]
    exact hnodup
  · intro p hp
    obtain ⟨e, he, rfl⟩ := List.mem_map.mp hp
    obtain ⟨i, v, n, e', res, hexec, rfl⟩ := hexecuted e he
    exact Cluster.mem_calls_of_submitted path
      ((Cluster.conveyed_path hfits).executed _ _ _ _ _ hexec)
  · intro h₁ key y hle hmem
    obtain ⟨i, v, n, e, hexec, rfl, hbefore⟩ := htimed h₁ key y hle hmem
    obtain ⟨hentry, hres⟩ := hanswered i v n e _ hexec
    obtain ⟨hpos, hle⟩ := entryAt_isSome hentry
    have hsplit : l = l.take (n - 1) ++ e.strip :: l.drop n := by
      obtain ⟨k, rfl⟩ : ∃ k, n = k + 1 := ⟨n - 1, by omega⟩
      rw [Nat.add_sub_cancel, ← List.getElem?_eq_some_iff.mp hentry |>.2, List.getElem_cons_drop,
        List.take_append_drop]
    refine ⟨(l.take (n - 1)).map fun e => (e.key, e.input), e.input,
      (l.drop n).map fun e => (e.key, e.input), ?_, ?_, ?_⟩
    · conv_lhs => rw [hsplit]
      rw [List.map_append, List.map_cons]
      rfl
    · rw [List.map_map]
      exact Option.some.inj hres
    · intro p hp
      have hlogged : ∃ m e', 1 ≤ m ∧ m ≤ n ∧ entryAt l m = some e' ∧ p.1 = e'.key := by
        rcases List.mem_append.mp hp with hp | hp
        · obtain ⟨e', he', rfl⟩ := List.mem_map.mp hp
          obtain ⟨k, hk, rfl⟩ := List.mem_take_iff_getElem.mp he'
          exact ⟨k + 1, l[k], by omega, by omega, List.getElem?_eq_getElem (by omega), rfl⟩
        · rw [List.mem_singleton.mp hp]
          exact ⟨n, e.strip, hpos, Nat.le_refl n, hentry, rfl⟩
      obtain ⟨m, e', hm, hmn, he', hkey⟩ := hlogged
      obtain ⟨w, e'', res', hexec', hinvoked⟩ := hbefore m hm hmn
      obtain rfl := Option.some.inj ((hanswered i w m e'' res' hexec').1.symm.trans he')
      exact ⟨e''.input, hkey ▸ hinvoked⟩

def getRequest (client : UInt64) (request : Nat) (payload : Bytes) : VsrMessage where
  header :=
    { command := .request, operation := .get, client := { low := client }, request := request }
  payload := payload

/-- Replica 0 answers a `SET` and joins view 1, whose primary answers a `GET`. -/
def readInViewOne : List Event :=
  executedThenViewChange ++ [.deliver 1] ++ process 0 1 ++ [.deliver 2] ++ process 0 4
    ++ receive 2 2 ++ receive 5 1 ++ receive 5 1 ++ request 1 9 (getRequest 2 1 [97])
    ++ receive 6 2 ++ receive 6 1

theorem linearizable_in_view_one :
    ∃ c, Path Cluster.step Cluster.CarefulClients (Cluster.init (2 * 1 + 1)) readInViewOne c
      ∧ (Cluster.init (2 * 1 + 1)).calls readInViewOne
        = [.invoke ({ low := 1 }, 1) (.set, [97, 32, 98]),
          .respond ({ low := 1 }, 1) (setResult [97] [98]),
          .invoke ({ low := 2 }, 1) (.get, [97]), .respond ({ low := 2 }, 1) [98]]
      ∧ Linearizable store ((Cluster.init (2 * 1 + 1)).calls readInViewOne) := by
  obtain ⟨c, path, -⟩ := exists_path_of_replay Cluster.step Cluster.CarefulClients
    (Cluster.init (2 * 1 + 1)) readInViewOne (P := fun c => (c.state 1).lastExecutedOp = 2)
    (by decide +kernel)
  exact ⟨c, path, by decide +kernel, linearizable 1 (by norm_num) path⟩

end VsrKv
