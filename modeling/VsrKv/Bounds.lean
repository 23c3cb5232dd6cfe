import VsrKv.LogList
import VsrKv.Mail

/-!
# Every field stays within its type

The model's integers are unbounded; the program's are not. A state in
which every field is within the type the source declares for it stays
so (`Fits`), and every header a replica sends to another holds values of
its field types (`Sendable`), in every run whatever: with duplicates and
restarts, with any number of replicas, and also past the point where a
counter wraps. The codec results apply to what replicas send because of
this.
-/

namespace VsrKv

open Replica TransitionSystem

/-- What replicas send each other: everything but pongs and replies. -/
def isServerMessage (m : VsrMessage) : Bool :=
  m.header.command == .prepare || m.header.command == .prepareOk
    || m.header.command == .commit || m.header.command == .startViewChange
    || m.header.command == .doViewChange || m.header.command == .startView
    || m.header.command == .recovery || m.header.command == .recoveryResponse

/-- A message as a replica sends it. Replicas send no requests and no pings. -/
structure Sendable (m : VsrMessage) : Prop where
  header : isServerMessage m = true → m.header.InRange
  payload : m.header.command = .prepare → m.payload.length < 2 ^ 64
  request : m.header.command ≠ .request

/-- A message as it may reach a replica. -/
def Receivable (m : VsrMessage) : Prop := isClientMessage m = true ∨ Sendable m

structure Fits (s : ReplicaState) : Prop where
  view : s.view < 2 ^ 32
  lastNormalView : s.lastNormalView < 2 ^ 32
  op : s.op < 2 ^ 64
  commit : s.commit < 2 ^ 64
  log : LogFits s.log
  votes : ∀ m ∈ s.doViewChangeReceived, m.header.InRange
  responses : ∀ m ∈ s.recoveryResponses, m.header.InRange

theorem u8_lt (n : Nat) : u8 n < 2 ^ 8 := Nat.mod_lt _ (by norm_num)

theorem u32_lt (n : Nat) : u32 n < 2 ^ 32 := Nat.mod_lt _ (by norm_num)

theorem u64_lt (n : Nat) : u64 n < 2 ^ 64 := Nat.mod_lt _ (by norm_num)

/-- The fields a replica leaves unset are zero. -/
theorem VsrHeader.InRange.of_unset {h : VsrHeader}
    (hunset : h.size = 0 ∧ h.cluster = 0 ∧ h.epoch = 0 ∧ h.offset = 0 ∧ h.version = 0)
    (hrequest : h.request < 2 ^ 32) (hview : h.view < 2 ^ 32) (hop : h.op < 2 ^ 64)
    (hcommit : h.commit < 2 ^ 64) (hreplica : h.replica < 2 ^ 8) : h.InRange := by
  obtain ⟨hsize, hcluster, hepoch, hoffset, hversion⟩ := hunset
  exact ⟨by omega, hrequest, by omega, by omega, hview, hop, hcommit, by omega, hreplica,
    by omega⟩

theorem fits_new (id : Nat) (config : List PeerConfig) : Fits (.new id config) where
  view := by simp [ReplicaState.new]
  lastNormalView := by simp [ReplicaState.new]
  op := by simp [ReplicaState.new]
  commit := by simp [ReplicaState.new]
  log := logFits_empty
  votes m hm := by simp [ReplicaState.new] at hm
  responses m hm := by simp [ReplicaState.new] at hm

section

variable {m : VsrMessage}

theorem Receivable.header (h : Receivable m) (hserver : isServerMessage m = true) :
    m.header.InRange := by
  rcases h with hclient | hsend
  · rcases command_of_client hclient with hcmd | hcmd <;> simp [isServerMessage, hcmd] at hserver
  · exact hsend.header hserver

/-- A message an entry is made of. -/
theorem Receivable.entry (h : Receivable m)
    (hcmd : m.header.command = .request ∨ m.header.command = .prepare) {v : Nat}
    (hv : v < 2 ^ 32) (acks : Finset Nat) : (entryOf v m acks).InRange := by
  have hfields : m.header.request < 2 ^ 32 ∧ m.payload.length < 2 ^ 64 := by
    rcases h with hclient | hsend
    · simp only [isClientMessage, Bool.and_eq_true, decide_eq_true_eq] at hclient
      exact ⟨hclient.1.2, by omega⟩
    · rcases hcmd with hcmd | hcmd
      · exact absurd hcmd hsend.request
      · exact ⟨(hsend.header (by simp [isServerMessage, hcmd])).request, hsend.payload hcmd⟩
  exact ⟨hv, hfields.1, hfields.2⟩

end

/-! ## Handling a message -/

theorem advanceLoop_lt (f : Nat) (log : Log) (k commit : Nat) (h : commit < 2 ^ 64) :
    advanceLoop f log k commit < 2 ^ 64 := by
  induction k generalizing commit with
  | zero => exact h
  | succ k ih =>
      rw [advanceLoop]
      split
      · exact h
      · split
        · exact h
        · exact ih _ (u64_lt _)

section

variable {env : Env} {s s' : ReplicaState} {im : InboundMessage} {m : VsrMessage}
  {effs : List Effect}

theorem Fits.of_executed (hexec : Executed s s' effs) (h : Fits s) : Fits s' := by
  obtain ⟨n, t, m, rfl⟩ := hexec.state
  exact ⟨h.view, h.lastNormalView, h.op, h.commit, h.log, h.votes, h.responses⟩

theorem Fits.raiseTo (h : Fits s) {k : Nat} (hk : k < 2 ^ 64) : Fits (raiseTo s k) := by
  refine ⟨h.view, h.lastNormalView, h.op, ?_, h.log, h.votes, h.responses⟩
  show (if k > s.commit then k else s.commit) < 2 ^ 64
  split
  · exact hk
  · exact h.commit

theorem Fits.appendEntry (h : Fits s) {e : LogEntry} (he : e.InRange) :
    Fits (appendEntry s e) where
  view := h.view
  lastNormalView := h.lastNormalView
  op := u64_lt _
  commit := h.commit
  log := h.log.insert (u64_lt _) he
  votes := h.votes
  responses := h.responses

theorem Fits.touched (h : Fits s) (client : UInt128) : Fits (touched s client) :=
  ⟨h.view, h.lastNormalView, h.op, h.commit, h.log, h.votes, h.responses⟩

theorem Fits.recordAck (h : Fits s) {op backup : Nat} {e : LogEntry}
    (he : s.log[op]? = some e) : Fits (recordAck s op backup e) := by
  obtain ⟨hop, hentry⟩ := h.log op e he
  exact ⟨h.view, h.lastNormalView, h.op, h.commit,
    h.log.insert hop ⟨hentry.view, hentry.requestNum, hentry.payload⟩, h.votes, h.responses⟩

theorem Fits.advanced (h : Fits s) : Fits (advanced s) :=
  ⟨h.view, h.lastNormalView, h.op, advanceLoop_lt _ _ _ _ h.commit, h.log, h.votes, h.responses⟩

theorem Fits.enterNewView (h : Fits s) (n : Nat) : Fits (s.enterNewView (u32 n)) := by
  refine ⟨u32_lt _, ?_, h.op, h.commit, h.log, (fun m hm => by cases hm), h.responses⟩
  show (if s.status = .normal then s.view else s.lastNormalView) < 2 ^ 32
  split
  · exact h.view
  · exact h.lastNormalView

theorem Fits.collects {s₁ : ReplicaState} {d : VsrMessage} (h : Fits s)
    (him : Receivable im.message) (hcollect : CollectsVote s im s₁ d) :
    Fits s₁ ∧ d.header.InRange := by
  cases hcollect with
  | received hcmd => exact ⟨h, him.header (by simp [isServerMessage, hcmd])⟩
  | own =>
      exact ⟨⟨h.view, h.lastNormalView, h.op, h.commit, h.log, h.votes, h.responses⟩,
        .of_unset ⟨rfl, rfl, rfl, rfl, rfl⟩ (by simp [doViewChangeMessage]) h.view h.op h.commit
          (u8_lt _)⟩

theorem forall_mem_append_singleton {α : Type} {P : α → Prop} {l : List α} {a : α}
    (hl : ∀ x ∈ l, P x) (ha : P a) : ∀ x ∈ l ++ [a], P x := by
  intro x hx
  rcases List.mem_append.mp hx with hx | hx
  · exact hl x hx
  · rw [List.mem_singleton.mp hx]
    exact ha

theorem Fits.startedState {s₁ : ReplicaState} {votes : List VsrMessage} {u commit : Nat}
    (h : Fits s₁) (hcommit : commit < 2 ^ 64) (hne : votes ≠ [])
    (hvotes : ∀ d ∈ votes, d.header.InRange) :
    Fits (startedState s₁ (selectLog u commit votes)) := by
  have hchosen := selectLog_chosenFrom u commit hne
  obtain ⟨d, hd, hop, hpayload⟩ := hchosen.vote
  refine ⟨h.view, h.lastNormalView, ?_, ?_, ?_, (fun m hm => by cases hm), h.responses⟩
  · show (selectLog u commit votes).op < 2 ^ 64
    rw [hop]
    exact (hvotes d hd).op
  · show (selectLog u commit votes).commit < 2 ^ 64
    rcases hchosen.commit with heq | ⟨d', hd', heq⟩
    · rw [heq]
      exact hcommit
    · rw [heq]
      exact (hvotes d' hd').commit
  · show LogFits (selectLog u commit votes).payload.log
    rw [hpayload]
    exact DoViewChangePayload.deserialize_fits _ _

theorem Fits.acts (h : Fits s) (him : Receivable im.message) (hacts : Acts env s im s' effs) :
    Fits s' := by
  cases hacts with
  | ignore => exact h
  | pong => exact h
  | respond => exact h
  | old => exact h.touched _
  | propose hcmd =>
      exact (h.touched _).appendEntry (him.entry (Or.inl hcmd) h.view _)
  | accept _ _ hcmd _ _ _ _ hexec =>
      exact .of_executed hexec ((h.appendEntry (him.entry (Or.inr hcmd) h.view _)).raiseTo
        (him.header (by simp [isServerMessage, hcmd])).commit)
  | acknowledge entry _ _ hcmd _ _ _ hentry hexec =>
      exact .of_executed hexec (h.recordAck hentry).advanced
  | learn _ _ hcmd _ _ _ hexec =>
      exact .of_executed hexec (h.raiseTo (him.header (by simp [isServerMessage, hcmd])).commit)
  | join | vote | discard =>
      exact ⟨h.view, h.lastNormalView, h.op, h.commit, h.log, h.votes, h.responses⟩
  | collect s₁ d hcollect =>
      obtain ⟨h₁, hd⟩ := h.collects him hcollect
      exact ⟨h₁.view, h₁.lastNormalView, h₁.op, h₁.commit, h₁.log,
        forall_mem_append_singleton h₁.votes hd, h₁.responses⟩
  | startView s₁ d hcollect hquorum best hbest _ _ hexec =>
      obtain ⟨h₁, hd⟩ := h.collects him hcollect
      subst hbest
      exact .of_executed hexec (h₁.startedState h.commit (by simp)
        (forall_mem_append_singleton h₁.votes hd))
  | adopt payload _ _ hcmd _ _ _ hpayload hexec =>
      have hheader := him.header (by simp [isServerMessage, hcmd])
      have hlog := StartViewPayload.deserialize_fits im.message.payload
      rw [hpayload] at hlog
      exact .of_executed hexec ⟨hheader.view, h.lastNormalView, hheader.op, hheader.commit, hlog,
        h.votes, h.responses⟩
  | gather payload hcmd =>
      exact ⟨h.view, h.lastNormalView, h.op, h.commit, h.log, h.votes,
        forall_mem_append_singleton h.responses (him.header (by simp [isServerMessage, hcmd]))⟩
  | recover payload hcmd _ _ _ first rest hlist _ s₁ _ hexec =>
      have hall := forall_mem_append_singleton h.responses
        (him.header (by simp [isServerMessage, hcmd]))
      rw [hlist] at hall
      have hbest := hall _ (bestResponse_spec first rest).1
      have h₁ : Fits s₁ := .of_executed hexec ⟨hbest.view, h.lastNormalView, hbest.op,
        hbest.commit, RecoveryResponsePayload.deserialize_fits _, h.votes, h.responses⟩
      exact ⟨h₁.view, h₁.lastNormalView, h₁.op, h₁.commit, h₁.log, h₁.votes,
        fun m hm => by cases hm⟩

/-! ## Sending -/

theorem Sendable.of_header (h : m.header.InRange)
    (hcmd : m.header.command ≠ .prepare ∧ m.header.command ≠ .request) : Sendable m :=
  ⟨fun _ => h, fun hprepare => absurd hprepare hcmd.1, hcmd.2⟩

theorem Sendable.of_executed (hexec : Executed s s' effs) :
    ∀ eff ∈ effs, ∀ m, eff.message? = some m → Sendable m := by
  intro eff heff m hm
  cases hexec.effects eff heff with
  | executed => cases hm
  | reply conn e res =>
      cases hm
      exact ⟨fun h => by simp [isServerMessage, replyMessage] at h,
        fun h => by simp [replyMessage] at h, by simp [replyMessage]⟩

theorem sendable_prepareOk (hview : s.view < 2 ^ 32) {n : Nat} (hn : n < 2 ^ 64) :
    Sendable (prepareOkMessage s n) :=
  .of_header (.of_unset ⟨rfl, rfl, rfl, rfl, rfl⟩ (by simp [prepareOkMessage]) hview hn
    (by simp [prepareOkMessage]) (u8_lt _)) ⟨by simp [prepareOkMessage], by simp [prepareOkMessage]⟩

theorem sendable_doViewChange (h : Fits s) : Sendable (doViewChangeMessage s) :=
  .of_header (.of_unset ⟨rfl, rfl, rfl, rfl, rfl⟩ (by simp [doViewChangeMessage]) h.view h.op
    h.commit (u8_lt _)) ⟨by simp [doViewChangeMessage], by simp [doViewChangeMessage]⟩

theorem sendable_startView (h : Fits s) : Sendable (startViewMessage s) :=
  .of_header (.of_unset ⟨rfl, rfl, rfl, rfl, rfl⟩ (by simp [startViewMessage]) h.view h.op
    h.commit (u8_lt _)) ⟨by simp [startViewMessage], by simp [startViewMessage]⟩

theorem sendable_recoveryResponse (h : Fits s) (nonce : UInt128) :
    Sendable (recoveryResponseMessage s nonce) :=
  .of_header (.of_unset ⟨rfl, rfl, rfl, rfl, rfl⟩ (by simp [recoveryResponseMessage]) h.view h.op
    h.commit (u8_lt _)) ⟨by simp [recoveryResponseMessage], by simp [recoveryResponseMessage]⟩

/-- The acknowledgements after a view change are for ops of the adopted log. -/
theorem retroactivePrepareOks_spec {k : Nat} {eff : Effect}
    (h : eff ∈ retroactivePrepareOks s k) :
    ∃ n ≤ s.op, s.log.contains n = true
      ∧ eff = .toPeer s.getPrimaryId (prepareOkMessage s n) := by
  obtain ⟨n, hn, rfl⟩ := List.mem_map.mp h
  obtain ⟨hrange, hlog⟩ := List.mem_filter.mp hn
  obtain ⟨hle, hlt⟩ := List.mem_range'_1.mp hrange
  exact ⟨n, by omega, hlog, rfl⟩

theorem Fits.sends (h : Fits s) (him : Receivable im.message) (hacts : Acts env s im s' effs) :
    ∀ eff ∈ effs, ∀ m, eff.message? = some m → Sendable m := by
  have hfits := h.acts him hacts
  intro eff heff m hm
  cases hacts with
  | ignore => cases heff
  | pong msg hcmd hmsg =>
      obtain rfl := List.mem_singleton.mp heff
      cases hm
      exact ⟨fun h => by simp [isServerMessage, hmsg] at h, fun h => by simp [hmsg] at h,
        by simp [hmsg]⟩
  | old _ _ _ effs heffs =>
      rw [(heffs eff heff).2] at hm
      cases hm
      exact ⟨fun h => by simp [isServerMessage, cachedReply] at h,
        fun h => by simp [cachedReply] at h, by simp [cachedReply]⟩
  | propose hcmd =>
      obtain rfl := List.mem_singleton.mp heff
      cases hm
      have hentry := him.entry (Or.inl hcmd) h.view ∅
      exact ⟨fun _ => .of_unset ⟨rfl, rfl, rfl, rfl, rfl⟩ hentry.requestNum h.view (u64_lt _)
        h.commit (u8_lt _), fun _ => hentry.payload, by simp [prepareMessage]⟩
  | accept _ effs _ _ _ _ _ hexec =>
      rcases List.mem_cons.mp heff with rfl | heff
      · cases hm
        exact sendable_prepareOk h.view (u64_lt _)
      · exact .of_executed hexec eff heff m hm
  | acknowledge _ _ _ _ _ _ _ _ hexec => exact .of_executed hexec eff heff m hm
  | learn _ _ _ _ _ _ hexec => exact .of_executed hexec eff heff m hm
  | join => cases heff
  | vote =>
      obtain rfl := List.mem_singleton.mp heff
      cases hm
      exact sendable_doViewChange
        ⟨h.view, h.lastNormalView, h.op, h.commit, h.log, h.votes, h.responses⟩
  | discard => cases heff
  | collect => cases heff
  | startView s₁ d hcollect hquorum best hbest _ effs hexec =>
      rcases List.mem_cons.mp heff with rfl | heff
      · cases hm
        obtain ⟨h₁, hd⟩ := h.collects him hcollect
        subst hbest
        exact sendable_startView (h₁.startedState h.commit (by simp)
          (forall_mem_append_singleton h₁.votes hd))
      · exact .of_executed hexec eff heff m hm
  | adopt _ _ effs _ _ _ _ _ hexec =>
      rcases List.mem_append.mp heff with heff | heff
      · exact .of_executed hexec eff heff m hm
      · obtain ⟨n, hn, -, rfl⟩ := retroactivePrepareOks_spec heff
        cases hm
        exact sendable_prepareOk hfits.view (hn.trans_lt hfits.op)
  | respond =>
      obtain rfl := List.mem_singleton.mp heff
      cases hm
      exact sendable_recoveryResponse h _
  | gather => cases heff
  | recover _ _ _ _ _ _ _ _ _ _ _ hexec => exact .of_executed hexec eff heff m hm

end

/-! ## Along a run -/

namespace Cluster

variable {c c' : Cluster} {ev : Event}

/-- Every replica's fields, and every header sent, are within their types. -/
structure Bounded (c : Cluster) : Prop where
  mail : Accounted c
  states : ∀ i, Fits (c.state i)
  sent : ∀ k m, c.Sent k m → Sendable m

theorem bounded_init (n : Nat) : Bounded (init n) where
  mail := accounted_init n
  states i := fits_new i _
  sent k m hsent := by obtain ⟨eff, heff, -⟩ := hsent; cases heff

theorem Bounded.receivable (h : Bounded c) {j : Nat} {im : InboundMessage}
    (him : im ∈ c.pend j) : Receivable im.message := by
  rcases h.mail j im him with hclient | ⟨k, hsent⟩
  · exact Or.inl hclient
  · exact Or.inr (h.sent k _ hsent)

theorem Bounded.head (h : Bounded c) {i : Nat} {im : InboundMessage}
    {rest : List InboundMessage} (hqueue : c.queue i = im :: rest) : Receivable im.message :=
  h.receivable (j := i) (by simp [pend, hqueue])

theorem Bounded.emits (h : Bounded c) {i : Nat} {eff : Effect} {m : VsrMessage}
    (hemits : Emits c i eff) (hm : eff.message? = some m) : Sendable m := by
  have hfits := h.states i
  cases hemits with
  | act env im rest s' effs hlt hqueue hstale hacts eff heff =>
      exact hfits.sends (h.head hqueue) hacts eff heff m hm
  | startViewChange =>
      cases hm
      exact .of_header (.of_unset ⟨rfl, rfl, rfl, rfl, rfl⟩ (by simp [startViewChangeMessage])
        (u32_lt _) (by simp [startViewChangeMessage]) (by simp [startViewChangeMessage])
        (u8_lt _)) ⟨by simp [startViewChangeMessage], by simp [startViewChangeMessage]⟩
  | recovery =>
      cases hm
      exact .of_header (.of_unset ⟨rfl, rfl, rfl, rfl, rfl⟩ (by simp [recoveryMessage])
        (by simp [recoveryMessage]) (by simp [recoveryMessage]) (by simp [recoveryMessage])
        (u8_lt _)) ⟨by simp [recoveryMessage], by simp [recoveryMessage]⟩
  | commit =>
      cases hm
      exact .of_header (.of_unset ⟨rfl, rfl, rfl, rfl, rfl⟩ (by simp [commitMessage]) hfits.view
        (by simp [commitMessage]) hfits.commit (by simp [commitMessage]))
        ⟨by simp [commitMessage], by simp [commitMessage]⟩

theorem Bounded.step (h : Bounded c) (hmoves : Moves c ev c') : Bounded c' := by
  refine ⟨h.mail.step hmoves, ?_, ?_⟩
  · intro j
    have hj := h.states j
    have hchanges := hmoves.changes j
    generalize c'.state j = s' at hchanges ⊢
    cases hchanges with
    | same => exact hj
    | act env im rest _ effs hlt hev hqueue hstale hacts => exact hj.acts (h.head hqueue) hacts
    | enterView => exact hj.enterNewView _
    | enterRecovery =>
        exact ⟨hj.view, hj.lastNormalView, hj.op, hj.commit, hj.log, hj.votes,
          fun m hm => by cases hm⟩
    | restart => exact fits_new j _
  · intro k m hsent
    rcases hmoves.sent hsent with hsent | ⟨eff, hemits, hm⟩
    · exact h.sent k m hsent
    · exact h.emits hemits hm

theorem bounded_run {ok : Cluster → Event → Cluster → Prop} {n : Nat}
    (run : Run ok (init n) c) : Bounded c :=
  run.invariant (bounded_init n) fun _ _ _ run hstep _ h =>
    h.step (step_moves (static_run run) hstep)

end Cluster

end VsrKv
