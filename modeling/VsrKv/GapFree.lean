import VsrKv.Bounds
import VsrKv.Runs

/-!
# The log has no gaps

`op_` and `log_` are written separately, and three handlers take the
first from a header and the second from a decoded payload. That the two
agree is therefore a fact about messages as much as about states: a
`DoViewChange`, a `StartView` and a `RecoveryResponse` decode to a log
that reaches exactly as far as their header says (`Intact`), from the
moment they are sent. Since sending and decoding a log strips its
acknowledgements and nothing else, adopting it keeps the state `Whole`.

Nothing about quorums or views is needed, so the result holds for any
number of replicas and with any duplication, loss and restarts. The one
condition is that the op counter does not wrap (`OpsFit`).
-/

namespace VsrKv

open Replica TransitionSystem
open Event (process receive request)

/-! ## Messages that carry a log -/

/-- A vote that decodes to a log as long as its header says. -/
def CarriesVote (m : VsrMessage) : Prop :=
  ∀ u, ∃ p, DoViewChangePayload.deserialize m.payload { lastNormalView := u } = (true, p)
    ∧ GapFree p.log m.header.op

def CarriesStart (m : VsrMessage) : Prop :=
  ∃ p, StartViewPayload.deserialize m.payload {} = (true, p) ∧ GapFree p.log m.header.op

def CarriesResponse (m : VsrMessage) : Prop :=
  ∃ p, RecoveryResponsePayload.deserialize m.payload {} = (true, p) ∧ GapFree p.log m.header.op

structure Intact (m : VsrMessage) : Prop where
  vote : m.header.command = .doViewChange → CarriesVote m
  start : m.header.command = .startView → CarriesStart m
  response : m.header.command = .recoveryResponse → CarriesResponse m

/-- The log has no gaps, and neither has any that is waiting to be chosen. -/
structure Whole (s : ReplicaState) : Prop where
  log : GapFree s.log s.op
  votes : ∀ m ∈ s.doViewChangeReceived, CarriesVote m
  responses : ∀ m ∈ s.recoveryResponses, CarriesResponse m

/-- Handling `msg` logs an entry. -/
def logsEntry (s : ReplicaState) (msg : VsrMessage) : Bool :=
  takesForNew s msg || msg.header.command == .prepare && checkCanProcessPrepare s msg

theorem whole_new (id : Nat) (config : List PeerConfig) : Whole (.new id config) where
  log := .empty
  votes m hm := by simp [ReplicaState.new] at hm
  responses m hm := by simp [ReplicaState.new] at hm

/-- A message of another kind carries no log. -/
theorem Intact.of_command {m : VsrMessage} (h : m.header.command ≠ .doViewChange
    ∧ m.header.command ≠ .startView ∧ m.header.command ≠ .recoveryResponse) : Intact m :=
  ⟨fun hcmd => absurd hcmd h.1, fun hcmd => absurd hcmd h.2.1, fun hcmd => absurd hcmd h.2.2⟩

theorem Intact.of_client {m : VsrMessage} (h : isClientMessage m = true) : Intact m := by
  refine .of_command ?_
  rcases command_of_client h with hcmd | hcmd <;> simp [hcmd]

section

variable {s : ReplicaState}

theorem carriesVote_doViewChange (hfits : Fits s) (hlog : GapFree s.log s.op) :
    CarriesVote (doViewChangeMessage s) := by
  intro u
  exact ⟨_, DoViewChangePayload.deserialize_serialize hfits.lastNormalView
    (hlog.inRange hfits.op hfits.log) u, hlog.strip⟩

theorem intact_doViewChange (hfits : Fits s) (hlog : GapFree s.log s.op) :
    Intact (doViewChangeMessage s) :=
  ⟨fun _ => carriesVote_doViewChange hfits hlog, fun h => by simp [doViewChangeMessage] at h,
    fun h => by simp [doViewChangeMessage] at h⟩

theorem intact_startView (hfits : Fits s) (hlog : GapFree s.log s.op) :
    Intact (startViewMessage s) := by
  refine ⟨fun h => by simp [startViewMessage] at h, fun _ => ?_,
    fun h => by simp [startViewMessage] at h⟩
  exact ⟨_, StartViewPayload.deserialize_serialize (hlog.inRange hfits.op hfits.log), hlog.strip⟩

theorem intact_recoveryResponse (hfits : Fits s) (hlog : GapFree s.log s.op) (nonce : UInt128) :
    Intact (recoveryResponseMessage s nonce) := by
  refine ⟨fun h => by simp [recoveryResponseMessage] at h,
    fun h => by simp [recoveryResponseMessage] at h, fun _ => ?_⟩
  exact ⟨_, RecoveryResponsePayload.deserialize_serialize (hlog.inRange hfits.op hfits.log),
    hlog.strip⟩

end

/-! ## Handling a message -/

section

variable {env : Env} {s s' : ReplicaState} {im : InboundMessage} {effs : List Effect}

theorem Whole.of_executed (hexec : Executed s s' effs) (h : Whole s) : Whole s' := by
  obtain ⟨n, t, m, rfl⟩ := hexec.state
  exact ⟨h.log, h.votes, h.responses⟩

theorem Whole.appendEntry (h : Whole s) (hop : s.op + 1 < 2 ^ 64) (e : LogEntry) :
    Whole (appendEntry s e) := by
  refine ⟨?_, h.votes, h.responses⟩
  show GapFree (s.log.insert (u64 (s.op + 1)) e) (u64 (s.op + 1))
  rw [u64_eq hop]
  exact h.log.insert_next e

theorem Whole.collects {s₁ : ReplicaState} {d : VsrMessage} (h : Whole s) (hfits : Fits s)
    (him : Intact im.message) (hcollect : CollectsVote s im s₁ d) : Whole s₁ ∧ CarriesVote d := by
  cases hcollect with
  | received hcmd => exact ⟨h, him.vote hcmd⟩
  | own =>
      have h₁ : Whole { s with startViewChangeReceived := ∅ } := ⟨h.log, h.votes, h.responses⟩
      exact ⟨h₁, carriesVote_doViewChange ⟨hfits.view, hfits.lastNormalView, hfits.op,
        hfits.commit, hfits.log, hfits.votes, hfits.responses⟩ h₁.log⟩

theorem gapFree_selectLog {votes : List VsrMessage} (u commit : Nat) (hne : votes ≠ [])
    (hvotes : ∀ d ∈ votes, CarriesVote d) :
    GapFree (selectLog u commit votes).payload.log (selectLog u commit votes).op := by
  obtain ⟨d, hd, hop, hpayload⟩ := (selectLog_chosenFrom u commit hne).vote
  obtain ⟨p, hp, hlog⟩ := hvotes d hd u
  rw [hop, hpayload, hp]
  exact hlog

theorem Whole.startedState {s₁ : ReplicaState} {votes : List VsrMessage} (h : Whole s₁)
    (u commit : Nat) (hne : votes ≠ []) (hvotes : ∀ d ∈ votes, CarriesVote d) :
    Whole (startedState s₁ (selectLog u commit votes)) :=
  ⟨gapFree_selectLog u commit hne hvotes, (fun m hm => by cases hm), h.responses⟩

theorem Whole.acts (h : Whole s) (hfits : Fits s) (him : Intact im.message)
    (hops : logsEntry s im.message = true → s.op + 1 < 2 ^ 64)
    (hacts : Acts env s im s' effs) : Whole s' := by
  cases hacts with
  | propose hcmd hst hprimary hnew =>
      have htouched : Whole (touched s im.message.header.client) :=
        ⟨h.log, h.votes, h.responses⟩
      refine htouched.appendEntry (hops ?_) _
      simp [logsEntry, takesForNew, checkCanProcessRequest, hcmd, hst, hprimary, hnew]
  | accept _ _ hcmd hst hprimary hview hop hexec =>
      have hfit := hops (by simp [logsEntry, checkCanProcessPrepare, hcmd, hst, hprimary, hview,
        hop])
      have happend := h.appendEntry hfit (entryOf s.view im.message ∅)
      exact .of_executed hexec ⟨happend.log, happend.votes, happend.responses⟩
  | acknowledge entry _ _ _ _ _ _ hentry hexec =>
      exact .of_executed hexec
        ⟨h.log.insert_same (mem_of_logged hentry) _, h.votes, h.responses⟩
  | learn _ _ _ _ _ _ hexec => exact .of_executed hexec ⟨h.log, h.votes, h.responses⟩
  | collect s₁ d hcollect =>
      obtain ⟨h₁, hd⟩ := h.collects hfits him hcollect
      exact ⟨h₁.log, forall_mem_append_singleton h₁.votes hd, h₁.responses⟩
  | startView s₁ d hcollect hquorum best hbest _ _ hexec =>
      obtain ⟨h₁, hd⟩ := h.collects hfits him hcollect
      subst hbest
      exact .of_executed hexec (h₁.startedState _ _ (by simp)
        (forall_mem_append_singleton h₁.votes hd))
  | adopt payload _ _ hcmd _ _ _ hpayload hexec =>
      obtain ⟨p, hp, hlog⟩ := him.start hcmd
      rw [hpayload] at hp
      cases hp
      exact .of_executed hexec ⟨hlog, h.votes, h.responses⟩
  | gather payload hcmd =>
      exact ⟨h.log, h.votes, forall_mem_append_singleton h.responses (him.response hcmd)⟩
  | recover payload hcmd _ _ _ first rest hlist _ s₁ _ hexec =>
      have hall := forall_mem_append_singleton h.responses (him.response hcmd)
      rw [hlist] at hall
      obtain ⟨p, hp, hlog⟩ := hall _ (bestResponse_spec first rest).1
      have h₁ : Whole s₁ := by
        refine .of_executed hexec ⟨?_, h.votes, h.responses⟩
        show GapFree (RecoveryResponsePayload.deserialize _ {}).2.log _
        rw [hp]
        exact hlog
      exact ⟨h₁.log, h₁.votes, fun m hm => by cases hm⟩
  | _ => exact ⟨h.log, h.votes, h.responses⟩

theorem Whole.sends (h : Whole s) (hfits : Fits s) (hrecv : Receivable im.message)
    (him : Intact im.message) (hacts : Acts env s im s' effs) :
    ∀ eff ∈ effs, ∀ m, eff.message? = some m → Intact m := by
  intro eff heff m hm
  cases hacts.logCarrier eff heff m hm with
  | plain hcmd => exact .of_command hcmd
  | vote p heq hmsg =>
      rw [hmsg]
      exact intact_doViewChange ⟨hfits.view, hfits.lastNormalView, hfits.op, hfits.commit,
        hfits.log, hfits.votes, hfits.responses⟩ h.log
  | start s₁ d hcollect hprimary heq hmsg =>
      obtain ⟨h₁, hd⟩ := h.collects hfits him hcollect
      obtain ⟨hfits₁, hrange⟩ := hfits.collects hrecv hcollect
      rw [hmsg]
      exact intact_startView
        (hfits₁.startedState hfits.commit (by simp)
          (forall_mem_append_singleton hfits₁.votes hrange))
        (h₁.startedState _ _ (by simp) (forall_mem_append_singleton h₁.votes hd)).log
  | response p nonce heq hmsg =>
      rw [hmsg]
      exact intact_recoveryResponse hfits h.log nonce

end

/-! ## Along a run -/

namespace Cluster

variable {c c' : Cluster} {ev : Event}

/-- An entry that is logged in this step gets an op number below `2^64`. -/
def OpsFit (c : Cluster) (ev : Event) (_ : Cluster) : Prop :=
  ∀ i ∈ ev.ticked?, ∀ im ∈ (c.queue i).head?,
    logsEntry (c.state i) im.message = true → (c.state i).op + 1 < 2 ^ 64

instance (c : Cluster) (ev : Event) (c' : Cluster) : Decidable (OpsFit c ev c') :=
  inferInstanceAs (Decidable (∀ i ∈ ev.ticked?, ∀ im ∈ (c.queue i).head?, _ → _))

structure Gapless (c : Cluster) : Prop where
  bounded : Bounded c
  states : ∀ i, Whole (c.state i)
  sent : ∀ k m, c.Sent k m → Intact m

theorem gapless_init (n : Nat) : Gapless (init n) where
  bounded := bounded_init n
  states i := whole_new i _
  sent k m hsent := by obtain ⟨eff, heff, -⟩ := hsent; cases heff

theorem Gapless.head (h : Gapless c) {i : Nat} {im : InboundMessage}
    {rest : List InboundMessage} (hqueue : c.queue i = im :: rest) : Intact im.message := by
  rcases h.bounded.mail i im (by simp [pend, hqueue]) with hclient | ⟨k, hsent⟩
  · exact .of_client hclient
  · exact h.sent k _ hsent

theorem Gapless.emits (h : Gapless c) {i : Nat} {eff : Effect} {m : VsrMessage}
    (hemits : Emits c i eff) (hm : eff.message? = some m) : Intact m := by
  cases hemits with
  | act env im rest s' effs hlt hqueue hstale hacts eff heff =>
      exact (h.states i).sends (h.bounded.states i) (h.bounded.head hqueue) (h.head hqueue) hacts
        eff heff m hm
  | startViewChange => cases hm; exact .of_command (by simp [startViewChangeMessage])
  | recovery => cases hm; exact .of_command (by simp [recoveryMessage])
  | commit => cases hm; exact .of_command (by simp [commitMessage])

theorem Gapless.step (h : Gapless c) (hmoves : Moves c ev c') (hok : OpsFit c ev c') :
    Gapless c' := by
  refine ⟨h.bounded.step hmoves, ?_, ?_⟩
  · intro j
    have hj := h.states j
    have hchanges := hmoves.changes j
    generalize c'.state j = s' at hchanges ⊢
    cases hchanges with
    | same => exact hj
    | act env im rest _ effs hlt hev hqueue hstale hacts =>
        exact hj.acts (h.bounded.states j) (h.head hqueue)
          (hok j (by rw [hev]; rfl) im (by rw [hqueue]; rfl)) hacts
    | enterView => exact ⟨hj.log, (fun m hm => by cases hm), hj.responses⟩
    | enterRecovery => exact ⟨hj.log, hj.votes, fun m hm => by cases hm⟩
    | restart => exact whole_new j _
  · intro k m hsent
    rcases hmoves.sent hsent with hsent | ⟨eff, hemits, hm⟩
    · exact h.sent k m hsent
    · exact h.emits hemits hm

theorem gapless_run {ok : Cluster → Event → Cluster → Prop} {n : Nat}
    (hok : ∀ c ev c', ok c ev c' → OpsFit c ev c') (run : Run ok (init n) c) : Gapless c :=
  run.invariant (gapless_init n) fun _ _ _ run hstep h hu =>
    hu.step (step_moves (static_run run) hstep) (hok _ _ _ h)

/-- In every state of every run the keys of a replica's log are `1` to `op_`,
as long as op numbers fit. -/
theorem log_gap_free {n : Nat} (run : Run OpsFit (init n) c) (i k : Nat) :
    k ∈ (c.state i).log ↔ 1 ≤ k ∧ k ≤ (c.state i).op :=
  ((gapless_run (fun _ _ _ h => h) run).states i).log k

/-- Replica 0 logs two requests and replica 1 gets both `Prepare`s, the first
of them twice. -/
theorem log_gap_free_two :
    ∃ c, Run OpsFit (init 3) c ∧ ((c.state 0).op = 2 ∧ (c.state 1).op = 2)
      ∧ ∀ k, k ∈ (c.state 1).log ↔ 1 ≤ k ∧ k ≤ (c.state 1).op := by
  obtain ⟨c, run, h⟩ := exists_of_replay step OpsFit (init 3)
    (request 0 7 (setRequest 1 1 [97, 32, 98]) ++ [.duplicate 0]
      ++ request 0 8 (setRequest 2 1 [97, 32, 98]) ++ receive 0 1 ++ receive 2 1
      ++ [.deliver 1] ++ process 1 1)
    (P := fun c => (c.state 0).op = 2 ∧ (c.state 1).op = 2) (by decide +kernel)
  exact ⟨c, run, h, log_gap_free run 1⟩

end Cluster

end VsrKv
