import VsrKv.GapFree
import VsrKv.LateMessages
import VsrKv.Turns

/-!
# Where entries come from

Replicas copy requests into `Prepare`s, entries into logs, and logs into
votes, `StartView`s and recovery responses, and decode them again; a
recovered log is copied once more. None of this makes anything up: what
a replica logs or executes is what some client asked for, with the same
client id, number, operation and payload (`entries_submitted`).

What clients asked for is a matter of the events of a run, so this is
about runs with their events. The invariant `Conveyed` takes an
arbitrary set of requests; that the requests seen so far are such a set
is one induction over the run, and the sets grow along it.
-/

namespace VsrKv

open Replica TransitionSystem
open Event (process receive request)

/-! ## What a replica copies -/

/-- What a client asks for: its id, the number of the request, the operation and
its payload. -/
abbrev Submission : Type := UInt128 × Nat × Operation × Bytes

def LogEntry.submission (e : LogEntry) : Submission :=
  (e.clientId, e.requestNum, e.opType, e.payload)

@[simp] theorem LogEntry.submission_strip (e : LogEntry) : e.strip.submission = e.submission := rfl

def VsrMessage.submission (m : VsrMessage) : Submission :=
  (m.header.client, m.header.request, m.header.operation, m.payload)

/-- All entries of the log are in `R`. -/
def LogFrom (R : Submission → Prop) (log : Log) : Prop :=
  ∀ (n : Nat) (e : LogEntry), log[n]? = some e → R e.submission

/-- Whatever `m` makes a replica log is in `R`. -/
structure Carries (R : Submission → Prop) (m : VsrMessage) : Prop where
  entry : m.header.command = .request ∨ m.header.command = .prepare → R m.submission
  vote : m.header.command = .doViewChange → ∀ u,
    LogFrom R (DoViewChangePayload.deserialize m.payload { lastNormalView := u }).2.log
  start : m.header.command = .startView →
    LogFrom R (StartViewPayload.deserialize m.payload {}).2.log
  response : m.header.command = .recoveryResponse →
    LogFrom R (RecoveryResponsePayload.deserialize m.payload {}).2.log

/-- All entries that are logged, or are waiting to be chosen, are in `R`. -/
structure KeepsTo (R : Submission → Prop) (s : ReplicaState) : Prop where
  log : LogFrom R s.log
  votes : ∀ m ∈ s.doViewChangeReceived, ∀ u,
    LogFrom R (DoViewChangePayload.deserialize m.payload { lastNormalView := u }).2.log
  responses : ∀ m ∈ s.recoveryResponses,
    LogFrom R (RecoveryResponsePayload.deserialize m.payload {}).2.log

section

variable {R R' : Submission → Prop} {log : Log} {s s' : ReplicaState} {m : VsrMessage}

theorem logFrom_empty : LogFrom R ∅ := by
  intro n e he
  simp at he

theorem LogFrom.mono (hR : ∀ x, R x → R' x) (h : LogFrom R log) : LogFrom R' log :=
  fun n e he => hR _ (h n e he)

theorem LogFrom.insert (h : LogFrom R log) (n : Nat) {e : LogEntry} (he : R e.submission) :
    LogFrom R (log.insert n e) := by
  intro k e' hk
  rw [Std.ExtTreeMap.getElem?_insert] at hk
  split at hk
  · obtain rfl := Option.some.inj hk
    exact he
  · exact h k e' hk

theorem LogFrom.strip (h : LogFrom R log) : LogFrom R (stripLog log) := by
  intro n e he
  rw [getElem?_stripLog, Option.map_eq_some_iff] at he
  obtain ⟨e', he', rfl⟩ := he
  exact h n e' he'

theorem Carries.mono (hR : ∀ x, R x → R' x) (h : Carries R m) : Carries R' m where
  entry hcmd := hR _ (h.entry hcmd)
  vote hcmd u := (h.vote hcmd u).mono hR
  start hcmd := (h.start hcmd).mono hR
  response hcmd := (h.response hcmd).mono hR

/-- Most messages carry nothing that is ever logged. -/
theorem Carries.of_command (h : m.header.command ≠ .request ∧ m.header.command ≠ .prepare)
    (h' : m.header.command ≠ .doViewChange ∧ m.header.command ≠ .startView
      ∧ m.header.command ≠ .recoveryResponse) : Carries R m where
  entry hcmd := (hcmd.elim h.1 h.2).elim
  vote hcmd := absurd hcmd h'.1
  start hcmd := absurd hcmd h'.2.1
  response hcmd := absurd hcmd h'.2.2

theorem KeepsTo.mono (hR : ∀ x, R x → R' x) (h : KeepsTo R s) : KeepsTo R' s where
  log := h.log.mono hR
  votes m hm u := (h.votes m hm u).mono hR
  responses m hm := (h.responses m hm).mono hR

theorem keepsTo_new (id : Nat) (config : List PeerConfig) : KeepsTo R (.new id config) where
  log := logFrom_empty
  votes m hm := by simp [ReplicaState.new] at hm
  responses m hm := by simp [ReplicaState.new] at hm

/-! ## Messages that carry the sender's log -/

theorem carries_doViewChange (hlog : LogFrom R s.log) (hfits : Fits s)
    (hgaps : GapFree s.log s.op) : Carries R (doViewChangeMessage s) where
  entry hcmd := by simp [doViewChangeMessage] at hcmd
  vote _ u := by
    have hdecoded := DoViewChangePayload.deserialize_serialize
      (p := { lastNormalView := s.lastNormalView, log := s.log }) hfits.lastNormalView
      (hgaps.inRange hfits.op hfits.log) u
    rw [doViewChangeMessage, hdecoded]
    exact hlog.strip
  start hcmd := by simp [doViewChangeMessage] at hcmd
  response hcmd := by simp [doViewChangeMessage] at hcmd

theorem carries_startView (hlog : LogFrom R s.log) (hfits : Fits s)
    (hgaps : GapFree s.log s.op) : Carries R (startViewMessage s) where
  entry hcmd := by simp [startViewMessage] at hcmd
  vote hcmd := by simp [startViewMessage] at hcmd
  start _ := by
    rw [startViewMessage, StartViewPayload.deserialize_serialize (hgaps.inRange hfits.op hfits.log)]
    exact hlog.strip
  response hcmd := by simp [startViewMessage] at hcmd

theorem carries_recoveryResponse (hlog : LogFrom R s.log) (hfits : Fits s)
    (hgaps : GapFree s.log s.op) (nonce : UInt128) :
    Carries R (recoveryResponseMessage s nonce) where
  entry hcmd := by simp [recoveryResponseMessage] at hcmd
  vote hcmd := by simp [recoveryResponseMessage] at hcmd
  start hcmd := by simp [recoveryResponseMessage] at hcmd
  response _ := by
    rw [recoveryResponseMessage, RecoveryResponsePayload.deserialize_serialize
      (hgaps.inRange hfits.op hfits.log)]
    exact hlog.strip

end

/-! ## Handling a message -/

section

variable {R : Submission → Prop} {env : Env} {s s' : ReplicaState} {im : InboundMessage}
  {effs : List Effect}

theorem KeepsTo.of_executed (hexec : Executed s s' effs) (h : KeepsTo R s) : KeepsTo R s' := by
  obtain ⟨n, t, m, rfl⟩ := hexec.state
  exact ⟨h.log, h.votes, h.responses⟩

theorem KeepsTo.collects {s₁ : ReplicaState} {d : VsrMessage} (h : KeepsTo R s) (hfits : Fits s)
    (hwhole : Whole s) (him : Carries R im.message) (hcollect : CollectsVote s im s₁ d) :
    KeepsTo R s₁ ∧ ∀ u,
      LogFrom R (DoViewChangePayload.deserialize d.payload { lastNormalView := u }).2.log := by
  cases hcollect with
  | received hcmd => exact ⟨h, him.vote hcmd⟩
  | own =>
      have hfits₁ : Fits { s with startViewChangeReceived := ∅ } := ⟨hfits.view,
        hfits.lastNormalView, hfits.op, hfits.commit, hfits.log, hfits.votes, hfits.responses⟩
      exact ⟨⟨h.log, h.votes, h.responses⟩,
        (carries_doViewChange (s := { s with startViewChangeReceived := ∅ }) h.log hfits₁
          hwhole.log).vote rfl⟩

theorem logFrom_selectLog {votes : List VsrMessage} (u commit : Nat) (hne : votes ≠ [])
    (hvotes : ∀ d ∈ votes, ∀ u,
      LogFrom R (DoViewChangePayload.deserialize d.payload { lastNormalView := u }).2.log) :
    LogFrom R (selectLog u commit votes).payload.log := by
  obtain ⟨d, hd, -, hpayload⟩ := (selectLog_chosenFrom u commit hne).vote
  rw [hpayload]
  exact hvotes d hd u

theorem KeepsTo.acts (h : KeepsTo R s) (hfits : Fits s) (hwhole : Whole s)
    (him : Carries R im.message) (hacts : Acts env s im s' effs) : KeepsTo R s' := by
  cases hacts with
  | propose hcmd =>
      exact ⟨h.log.insert _ (e := entryOf s.view im.message {s.id}) (him.entry (Or.inl hcmd)),
        h.votes, h.responses⟩
  | accept _ _ hcmd _ _ _ _ hexec =>
      exact .of_executed hexec ⟨h.log.insert _ (e := entryOf s.view im.message ∅)
        (him.entry (Or.inr hcmd)), h.votes, h.responses⟩
  | acknowledge entry _ _ _ _ _ _ hentry hexec =>
      exact .of_executed hexec ⟨h.log.insert _ (e := { entry with
        prepareOkAcks := insert im.message.header.replica entry.prepareOkAcks })
        (h.log _ entry hentry), h.votes, h.responses⟩
  | learn _ _ _ _ _ _ hexec => exact .of_executed hexec ⟨h.log, h.votes, h.responses⟩
  | collect s₁ d hcollect =>
      obtain ⟨h₁, hd⟩ := h.collects hfits hwhole him hcollect
      exact ⟨h₁.log, forall_mem_append_singleton h₁.votes hd, h₁.responses⟩
  | startView s₁ d hcollect hquorum best hbest _ _ hexec =>
      obtain ⟨h₁, hd⟩ := h.collects hfits hwhole him hcollect
      subst hbest
      refine .of_executed hexec ⟨logFrom_selectLog _ _ (by simp) ?_, (fun m hm => by cases hm),
        h₁.responses⟩
      exact forall_mem_append_singleton h₁.votes hd
  | adopt payload _ _ hcmd _ _ _ hpayload hexec =>
      have hlog := him.start hcmd
      rw [hpayload] at hlog
      exact .of_executed hexec ⟨hlog, h.votes, h.responses⟩
  | gather payload hcmd =>
      exact ⟨h.log, h.votes, forall_mem_append_singleton h.responses (him.response hcmd)⟩
  | recover payload hcmd _ _ _ first rest hlist _ s₁ _ hexec =>
      have hall := forall_mem_append_singleton h.responses (him.response hcmd)
      rw [hlist] at hall
      have h₁ : KeepsTo R s₁ := .of_executed hexec
        ⟨hall _ (bestResponse_spec first rest).1, h.votes, h.responses⟩
      exact ⟨h₁.log, h₁.votes, fun m hm => by cases hm⟩
  | _ => exact ⟨h.log, h.votes, h.responses⟩

/-- A `Prepare` repeats the request it answers. -/
theorem Acts.submission_prepare (hacts : Acts env s im s' effs) :
    ∀ eff ∈ effs, ∀ m, eff.message? = some m → m.header.command = .prepare →
      im.message.header.command = .request ∧ m.submission = im.message.submission := by
  intro eff heff m hm hprepare
  obtain ⟨hcmd, -, -, rfl⟩ := hacts.prepare eff heff m hm hprepare
  exact ⟨hcmd, rfl⟩

theorem KeepsTo.sends (h : KeepsTo R s) (hfits : Fits s) (hwhole : Whole s)
    (hrecv : Receivable im.message) (hintact : Intact im.message) (him : Carries R im.message)
    (hacts : Acts env s im s' effs) :
    ∀ eff ∈ effs, ∀ m, eff.message? = some m → Carries R m := by
  intro eff heff m hm
  cases hacts.logCarrier eff heff m hm with
  | plain hcmd =>
      have hsend := hfits.sends hrecv hacts eff heff m hm
      refine ⟨?_, fun h => absurd h hcmd.1, fun h => absurd h hcmd.2.1,
        fun h => absurd h hcmd.2.2⟩
      rintro (hrequest | hprepare)
      · exact absurd hrequest hsend.request
      · obtain ⟨hrequest, hsame⟩ := hacts.submission_prepare eff heff m hm hprepare
        rw [hsame]
        exact him.entry (Or.inl hrequest)
  | vote p heq hmsg =>
      rw [hmsg]
      exact carries_doViewChange (s := { s with startViewChangeReceived := ∅ }) h.log
        ⟨hfits.view, hfits.lastNormalView, hfits.op, hfits.commit, hfits.log, hfits.votes,
          hfits.responses⟩ hwhole.log
  | start s₁ d hcollect hprimary heq hmsg =>
      obtain ⟨h₁, hd⟩ := h.collects hfits hwhole him hcollect
      obtain ⟨hwhole₁, hvote⟩ := hwhole.collects hfits hintact hcollect
      obtain ⟨hfits₁, hrange⟩ := hfits.collects hrecv hcollect
      rw [hmsg]
      refine carries_startView ?_ (hfits₁.startedState hfits.commit (by simp)
        (forall_mem_append_singleton hfits₁.votes hrange))
        (hwhole₁.startedState _ _ (by simp) (forall_mem_append_singleton hwhole₁.votes hvote)).log
      exact logFrom_selectLog _ _ (by simp) (forall_mem_append_singleton h₁.votes hd)
  | response p nonce heq hmsg =>
      rw [hmsg]
      exact carries_recoveryResponse h.log hfits hwhole.log nonce

end

/-! ## Along a run -/

namespace Cluster

section

variable {R R' : Submission → Prop} {es : List Event} {c c' : Cluster} {ev : Event}

/-- Some client has asked some replica for it. -/
def Submitted (es : List Event) (x : Submission) : Prop :=
  ∃ i fd msg, Event.client i fd msg ∈ es ∧ msg.header.command = .request ∧ msg.submission = x

/-- What is queued has come from a client, over a connection of its own, or has
been sent by a replica, as has all that is on the network. -/
structure Arrived (es : List Event) (c : Cluster) : Prop where
  net : ∀ p ∈ c.net, ∃ k, c.Sent k p.inbound.message
  queue : ∀ j, ∀ im ∈ c.queue j,
    (∃ fd, im.connection = .client fd ∧ Event.client j fd im.message ∈ es
        ∧ isClientMessage im.message = true)
      ∨ ∃ k, c.Sent k im.message

theorem arrived_init (n : Nat) : Arrived [] (init n) where
  net p hp := by cases hp
  queue j im him := by cases him

theorem mem_net_step (h : c.step ev = some c') {p : Packet} (hp : p ∈ c'.net) :
    p ∈ c.net ∨ ∃ k, c'.Sent k p.inbound.message := by
  have hput : ∀ {i : Nat} {n : Node}, p ∈ (c.put i n).net →
      p ∈ c.net ∨ ∃ k, (c.put i n).Sent k p.inbound.message := by
    intro i n hp
    rcases List.mem_append.mp hp with hp | hp
    · exact Or.inl hp
    · have hmail : p.inbound ∈ mail i (peers n.replica.state) n.replica.out p.dst :=
        List.mem_map.mpr ⟨p, List.mem_filter.mpr ⟨hp, beq_self_eq_true _⟩, rfl⟩
      obtain ⟨eff, heff, hm, -⟩ := mem_mail hmail
      exact Or.inr ⟨i, eff, List.mem_append_right _ (List.mem_map.mpr ⟨eff, heff, rfl⟩), hm⟩
  cases ev with
  | client i fd msg =>
      simp only [step, Option.ite_none_right_eq_some, Option.some.injEq] at h
      obtain ⟨-, rfl⟩ := h
      exact Or.inl hp
  | deliver k =>
      simp only [step, Option.bind_eq_bind, Option.bind_eq_some_iff,
        Option.ite_none_right_eq_some, Option.some.injEq] at h
      obtain ⟨q, -, -, rfl⟩ := h
      exact Or.inl (List.mem_of_mem_eraseIdx hp)
  | drop k =>
      simp only [step, Option.bind_eq_bind, Option.bind_eq_some_iff, Option.some.injEq] at h
      obtain ⟨q, -, rfl⟩ := h
      exact Or.inl (List.mem_of_mem_eraseIdx hp)
  | duplicate k =>
      simp only [step, Option.bind_eq_bind, Option.bind_eq_some_iff, Option.some.injEq] at h
      obtain ⟨q, hq, rfl⟩ := h
      rcases List.mem_append.mp hp with hp | hp
      · exact Or.inl hp
      · exact Or.inl (List.mem_singleton.mp hp ▸ List.mem_of_getElem? hq)
  | start i =>
      simp only [step, Option.ite_none_right_eq_some, Option.some.injEq] at h
      obtain ⟨-, rfl⟩ := h
      exact Or.inl hp
  | tick i env =>
      simp only [step, Option.ite_none_right_eq_some, Option.some.injEq] at h
      obtain ⟨-, rfl⟩ := h
      exact hput hp
  | heartbeat i | timeout i =>
      simp only [step, Option.ite_none_right_eq_some, Option.some.injEq] at h
      obtain ⟨-, rfl⟩ := h
      exact hput hp
  | restart i =>
      simp only [step, Option.ite_none_right_eq_some, Option.some.injEq] at h
      obtain ⟨-, rfl⟩ := h
      exact Or.inl (List.mem_filter.mp hp).1

theorem Arrived.step (h : Arrived es c) (hstatic : c.Static) (hstep : c.step ev = some c') :
    Arrived (es ++ [ev]) c' := by
  have htrace := (step_moves hstatic hstep).trace_subset
  refine ⟨?_, ?_⟩
  · intro p hp
    rcases mem_net_step hstep hp with hp | hsent
    · exact (h.net p hp).imp fun k hk => hk.mono htrace
    · exact hsent
  · intro j im him
    rcases mem_queue_step hstep him with him | harr
    · rcases h.queue j im him with ⟨fd, hfd, hmem, hclient⟩ | ⟨k, hsent⟩
      · exact Or.inl ⟨fd, hfd, List.mem_append_left _ hmem, hclient⟩
      · exact Or.inr ⟨k, hsent.mono htrace⟩
    · cases ev with
      | client i fd msg =>
          cases harr
          simp only [Cluster.step, Option.ite_none_right_eq_some] at hstep
          exact Or.inl ⟨fd, rfl, by simp, hstep.1.2.2⟩
      | deliver k =>
          obtain ⟨p, hp, heq⟩ := Option.map_eq_some_iff.mp harr
          cases heq
          exact Or.inr ((h.net p (List.mem_of_getElem? hp)).imp fun k hk => hk.mono htrace)
      | _ => cases harr

theorem arrived_path {ok : Cluster → Event → Cluster → Prop} {n : Nat}
    (path : Path step ok (init n) es c) : Arrived es c :=
  path.invariant (arrived_init n) fun _ _ _ _ path hstep _ h =>
    h.step (static_run path.steps) hstep

/-- All that is logged, on its way to be logged, or executed is in `R`. -/
structure Conveyed (R : Submission → Prop) (c : Cluster) : Prop where
  states : ∀ i, KeepsTo R (c.state i)
  sent : ∀ k m, c.Sent k m → Carries R m
  executed : ∀ i v n e res, (i, Effect.executed v n e res) ∈ c.trace → R e.submission

theorem conveyed_init (n : Nat) : Conveyed R (init n) where
  states i := keepsTo_new i _
  sent k m hsent := by obtain ⟨eff, heff, -⟩ := hsent; cases heff
  executed i v n e res hmem := by cases hmem

theorem Conveyed.mono (hR : ∀ x, R x → R' x) (h : Conveyed R c) : Conveyed R' c where
  states i := (h.states i).mono hR
  sent k m hsent := (h.sent k m hsent).mono hR
  executed i v n e res hmem := hR _ (h.executed i v n e res hmem)

theorem Conveyed.step (h : Conveyed R c) (hgapless : Gapless c)
    (hqueue : ∀ j, ∀ im ∈ c.queue j, Carries R im.message) (hmoves : Moves c ev c') :
    Conveyed R c' := by
  have hhead : ∀ {i : Nat} {im : InboundMessage} {rest : List InboundMessage},
      c.queue i = im :: rest → Carries R im.message := by
    intro i im rest hq
    exact hqueue i im (by rw [hq]; exact List.mem_cons_self)
  refine ⟨?_, ?_, ?_⟩
  · intro j
    have hj := h.states j
    have hchanges := hmoves.changes j
    generalize c'.state j = s' at hchanges ⊢
    cases hchanges with
    | same => exact hj
    | act env im rest _ effs hlt hev hq hstale hacts =>
        exact hj.acts (hgapless.bounded.states j) (hgapless.states j) (hhead hq) hacts
    | enterView => exact ⟨hj.log, (fun m hm => by cases hm), hj.responses⟩
    | enterRecovery => exact ⟨hj.log, hj.votes, fun m hm => by cases hm⟩
    | restart => exact keepsTo_new j _
  · intro k m hsent
    rcases hmoves.sent hsent with hsent | ⟨eff, hemits, hm⟩
    · exact h.sent k m hsent
    · cases hemits with
      | act env im rest s' effs hlt hq hstale hacts eff heff =>
          exact (h.states k).sends (hgapless.bounded.states k) (hgapless.states k)
            (hgapless.bounded.head hq) (hgapless.head hq) (hhead hq) hacts eff heff m hm
      | startViewChange =>
          cases hm
          exact .of_command (by simp [startViewChangeMessage]) (by simp [startViewChangeMessage])
      | recovery =>
          cases hm
          exact .of_command (by simp [recoveryMessage]) (by simp [recoveryMessage])
      | commit =>
          cases hm
          exact .of_command (by simp [commitMessage]) (by simp [commitMessage])
  · intro i v n e res hmem
    rcases hmoves.emits hmem with hmem | hemits
    · exact h.executed i v n e res hmem
    · cases hemits with
      | act env im rest s' effs hlt hq hstale hacts _ heff =>
          exact ((h.states i).acts (hgapless.bounded.states i) (hgapless.states i) (hhead hq)
            hacts).log n e (hacts.execution.logged heff)

/-- A client's message carries what the client asks for. -/
theorem carries_submitted {i fd : Nat} {msg : VsrMessage} (hmem : Event.client i fd msg ∈ es)
    (hclient : isClientMessage msg = true) : Carries (Submitted es) msg := by
  rcases command_of_client hclient with hcmd | hcmd
  · exact ⟨fun _ => ⟨i, fd, msg, hmem, hcmd, rfl⟩, fun h => by simp [hcmd] at h,
      fun h => by simp [hcmd] at h, fun h => by simp [hcmd] at h⟩
  · exact .of_command (by simp [hcmd]) (by simp [hcmd])

theorem Arrived.carries (h : Arrived es c) (hconveyed : Conveyed (Submitted es) c) (j : Nat) :
    ∀ im ∈ c.queue j, Carries (Submitted es) im.message := by
  intro im him
  rcases h.queue j im him with ⟨fd, -, hmem, hclient⟩ | ⟨k, hsent⟩
  · exact carries_submitted hmem hclient
  · exact hconveyed.sent k _ hsent

theorem Submitted.append {x : Submission} (es' : List Event) (h : Submitted es x) :
    Submitted (es ++ es') x := by
  obtain ⟨i, fd, msg, hmem, h⟩ := h
  exact ⟨i, fd, msg, List.mem_append_left _ hmem, h⟩

theorem conveyed_path {n : Nat} (path : Path step OpsFit (init n) es c) :
    Conveyed (Submitted es) c := by
  refine path.invariant (I := fun es c => Conveyed (Submitted es) c) (conveyed_init n) ?_
  intro es u ev v path hstep _ h
  have hmono : ∀ x, Submitted es x → Submitted (es ++ [ev]) x := fun x hx => hx.append [ev]
  exact (h.mono hmono).step (gapless_run (fun _ _ _ hok => hok) path.steps)
    (fun j im him => ((arrived_path path).carries h j im him).mono hmono)
    (step_moves (static_run path.steps) hstep)

end

end Cluster

/-- Whatever is in a log or has been executed some client has asked for, however
messages are lost and duplicated and replicas restart. -/
theorem entries_submitted {n : Nat} {es : List Event} {c : Cluster}
    (path : Path Cluster.step Cluster.OpsFit (Cluster.init n) es c) :
    (∀ i (k : Nat) (e : LogEntry), (c.state i).log[k]? = some e → Cluster.Submitted es e.submission)
      ∧ ∀ i v k e res, (i, Effect.executed v k e res) ∈ c.trace →
        Cluster.Submitted es e.submission := by
  have h := Cluster.conveyed_path path
  exact ⟨fun i => (h.states i).log, h.executed⟩

/-- Replica 2 has missed the `Prepare` of a request and gets the entry from the
primary of view 1. -/
theorem entries_submitted_in_view_one :
    ∃ c, Path Cluster.step Cluster.OpsFit (Cluster.init 3)
        (executedThenViewChange ++ receive 4 2) c
      ∧ ∃ e, (c.state 2).log[1]? = some e
        ∧ Cluster.Submitted (executedThenViewChange ++ receive 4 2) e.submission := by
  obtain ⟨c, path, h⟩ := exists_path_of_replay Cluster.step Cluster.OpsFit (Cluster.init 3)
    (executedThenViewChange ++ receive 4 2) (P := fun c => (c.state 2).log[1]? ≠ none)
    (by decide +kernel)
  obtain ⟨e, he⟩ := Option.ne_none_iff_exists'.mp h
  exact ⟨c, path, e, he, (entries_submitted path).1 2 1 e he⟩

end VsrKv
