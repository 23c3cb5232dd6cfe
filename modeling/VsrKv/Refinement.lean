import VsrKv.Counting
import VsrKv.LogList
import VsrKv.Viewstamped.Promises

/-!
# The cluster refines the protocol

The relation between a state of the cluster and a state of the abstract
protocol of `Viewstamped`. A replica tracks its abstract counterpart
(`Tracks`): same view, status and log, and whatever it has collected
means what it should. A message, from the moment it is sent, states a
fact about the protocol's history (`Meaning`): a `Prepare` names an
entry of its view's log, a `DoViewChange` a vote, a `StartView` the base
of its view. History only grows, so messages stay true however late they
arrive.

`Refines.of_local` says what one replica's step owes the relation. That
each step pays it is the business of `Simulation`.
-/

namespace VsrKv

open Replica Viewstamped

abbrev Abs := Viewstamped.State Nat LogEntry UInt128

/-- The configuration of a cluster of `2f + 1`. -/
def config (f : Nat) : Viewstamped.Config Nat where
  members := Finset.range (2 * f + 1)
  f := f
  primary v := v % (2 * f + 1)
  card := Finset.card_range _
  primary_mem v := Finset.mem_range.mpr (Nat.mod_lt _ (by omega))

theorem mem_members {f i : Nat} : i ∈ (config f).members ↔ i < 2 * f + 1 := Finset.mem_range

/-- View `v` has been started. -/
def Started (a : Abs) (v : Nat) : Prop := ∃ b, a.base v = some b

/-- Ops up to `n` were committed in view `v` or before. -/
def Known (f : Nat) (a : Abs) (v n : Nat) : Prop :=
  n = 0 ∨ ∃ v' ≤ v, Committed (config f) a v' n

/-- What executing `e` at `n` in view `v` presupposes. -/
def Performed (f : Nat) (a : Abs) (v n : Nat) (e : LogEntry) : Prop :=
  entryAt (a.viewLog v) n = some e.strip ∧ ∃ v' ≤ v, Committed (config f) a v' n

/-- What a message sent by `k` says about the protocol's history. -/
def Meaning (f : Nat) (a : Abs) (k : Nat) (m : VsrMessage) : Prop :=
  let h := m.header
  k < 2 * f + 1 ∧
  match h.command with
  | .prepare =>
      entryAt (a.viewLog h.view) h.op = some (entryOf h.view m ∅) ∧ Known f a h.view h.commit
  | .prepareOk => h.replica = k ∧ Started a h.view ∧ 1 ≤ h.op ∧ h.op ≤ a.promise k h.view
  | .commit => Started a h.view ∧ Known f a h.view h.commit
  | .startViewChange => ∃ v, h.view = v + 1 ∧ Started a v
  | .doViewChange =>
      h.replica = k ∧ Known f a h.view h.commit ∧ ∃ v l log, h.view = v + 1
        ∧ a.vote k h.view l ∧ Decodes v m (stripLog log) ∧ Represents log h.op l
  | .startView =>
      Known f a h.view h.commit ∧ ∃ l log, a.base h.view = some l
        ∧ StartViewPayload.deserialize m.payload {} = (true, { log := stripLog log })
        ∧ Represents log h.op l
  | .recovery => h.view = 0
  | .recoveryResponse =>
      h.replica = k ∧ Known f a h.view h.commit ∧ ∃ x l log, a.response k x h.view l
        ∧ RecoveryResponsePayload.deserialize m.payload {}
          = (true, { nonce := x, log := stripLog log })
        ∧ Represents log h.op l
  | .reply => Started a h.view
  | .pong => True
  | _ => False

section

variable {f : Nat} {a a' : Abs} {v n : Nat}

theorem Started.mono (hext : Extends a a') (h : Started a v) : Started a' v := by
  obtain ⟨b, hb⟩ := h
  exact ⟨b, hext.base v b hb⟩

theorem Known.mono (hext : Extends a a') (h : Known f a v n) : Known f a' v n := by
  rcases h with rfl | ⟨v', hle, hcom⟩
  · exact Or.inl rfl
  · exact Or.inr ⟨v', hle, hcom.mono hext⟩

theorem Known.later {w : Nat} (hw : v ≤ w) (h : Known f a v n) : Known f a w n := by
  rcases h with rfl | ⟨v', hle, hcom⟩
  · exact Or.inl rfl
  · exact Or.inr ⟨v', hle.trans hw, hcom⟩

theorem Performed.mono (hext : Extends a a') {e : LogEntry} (h : Performed f a v n e) :
    Performed f a' v n e := by
  obtain ⟨hentry, v', hle, hcom⟩ := h
  exact ⟨entryAt_mono (hext.viewLog v) hentry, v', hle, hcom.mono hext⟩

theorem Meaning.mono (hext : Extends a a') {k : Nat} {m : VsrMessage} (h : Meaning f a k m) :
    Meaning f a' k m := by
  obtain ⟨hk, h⟩ := h
  refine ⟨hk, ?_⟩
  cases hcmd : m.header.command <;> simp only [hcmd] at h ⊢
  case prepare => exact ⟨entryAt_mono (hext.viewLog _) h.1, h.2.mono hext⟩
  case prepareOk =>
    exact ⟨h.1, h.2.1.mono hext, h.2.2.1, h.2.2.2.trans (hext.promise _ _)⟩
  case reply => exact h.mono hext
  case commit => exact ⟨h.1.mono hext, h.2.mono hext⟩
  case startViewChange =>
    obtain ⟨v, hv, hst⟩ := h
    exact ⟨v, hv, hst.mono hext⟩
  case doViewChange =>
    obtain ⟨hr, hc, v, l, log, hv, hvote, hdec, hrep⟩ := h
    exact ⟨hr, hc.mono hext, v, l, log, hv, hext.vote _ _ _ hvote, hdec, hrep⟩
  case startView =>
    obtain ⟨hc, l, log, hb, hdec, hrep⟩ := h
    exact ⟨hc.mono hext, l, log, hext.base _ _ hb, hdec, hrep⟩
  case recovery => exact h
  case recoveryResponse =>
    obtain ⟨hr, hc, x, l, log, hresp, hdec, hrep⟩ := h
    exact ⟨hr, hc.mono hext, x, l, log, hext.response _ _ _ _ hresp, hdec, hrep⟩

/-- A message from a view says that the view, or the one before it, has been
started. -/
theorem Meaning.started (hinv : Inv (config f) a) {k : Nat} {m : VsrMessage}
    (h : Meaning f a k m) (hview : 0 < m.header.view) (hpong : m.header.command ≠ .pong) :
    Started a m.header.view
      ∨ (m.header.command = .startViewChange ∨ m.header.command = .doViewChange)
        ∧ ∃ v, m.header.view = v + 1 ∧ Started a v := by
  obtain ⟨-, h⟩ := h
  cases hcmd : m.header.command <;> simp only [hcmd] at h
  case pong => exact absurd hcmd hpong
  case prepare =>
    refine Or.inl ?_
    cases hb : a.base m.header.view with
    | some b => exact ⟨b, hb⟩
    | none =>
        rw [hinv.unstarted _ hb] at h
        have := entryAt_isSome h.1
        simp at this
        omega
  case prepareOk => exact Or.inl h.2.1
  case reply => exact Or.inl h
  case commit => exact Or.inl h.1
  case startViewChange => exact Or.inr ⟨Or.inl rfl, h⟩
  case doViewChange =>
    obtain ⟨-, -, v, l, log, hv, hvote, -⟩ := h
    obtain ⟨u, hu, -, b, hb, -⟩ := hinv.vote k _ l hvote
    exact Or.inr ⟨Or.inr rfl, u, hu, b, hb⟩
  case startView =>
    obtain ⟨-, l, log, hb, -⟩ := h
    exact Or.inl ⟨l, hb⟩
  case recovery => omega
  case recoveryResponse =>
    obtain ⟨-, -, x, l, log, hresp, -⟩ := h
    obtain ⟨-, b, hb, -⟩ := hinv.response k x _ l hresp
    exact Or.inl ⟨b, hb⟩

end

/-! ## Replicas -/

def ReplicaStatus.abs : ReplicaStatus → Viewstamped.Status
  | .normal => .normal
  | .viewChange => .changing
  | .recovery => .recovering

theorem ReplicaStatus.abs_injective : Function.Injective ReplicaStatus.abs := by
  intro s t h
  cases s <;> cases t <;> first | rfl | cases h

/-- The replica's state is that of member `i`, and what it has collected
means what it should. -/
structure Tracks (f : Nat) (a : Abs) (i : Nat) (s : ReplicaState) : Prop where
  view : (a.node i).view = s.view
  status : (a.node i).status = s.status.abs
  log : Represents s.log s.op (a.node i).log
  nonce : s.status = .recovery → (a.node i).nonce = s.recoveryNonce
  lastNormalView : s.status = .viewChange → s.view = s.lastNormalView + 1
  commit : Known f a s.view s.commit
  acks : s.status = .normal → ∀ (n : Nat) (e : LogEntry), s.log[n]? = some e →
    ∀ q ∈ e.prepareOkAcks, q < 2 * f + 1 ∧ n ≤ a.promise q s.view
  votes : s.status = .viewChange → ∀ d ∈ s.doViewChangeReceived,
    d.header.command = .doViewChange ∧ d.header.view = s.view ∧ Meaning f a d.header.replica d
  responses : s.status = .recovery → ∀ d ∈ s.recoveryResponses,
    isRecoveryResponse s.recoveryNonce d.header.replica d = true ∧ Meaning f a d.header.replica d

section

variable {f i : Nat} {a a' : Abs} {s s' : ReplicaState}

theorem Tracks.mono (hext : Extends a a') (hnode : a'.node i = a.node i)
    (h : Tracks f a i s) : Tracks f a' i s where
  view := by rw [hnode, h.view]
  status := by rw [hnode, h.status]
  log := by rw [hnode]; exact h.log
  nonce hst := by rw [hnode, h.nonce hst]
  lastNormalView := h.lastNormalView
  commit := h.commit.mono hext
  acks hst n e he q hq :=
    have hack := h.acks hst n e he q hq
    ⟨hack.1, hack.2.trans (hext.promise _ _)⟩
  votes hst d hd :=
    have hvote := h.votes hst d hd
    ⟨hvote.1, hvote.2.1, hvote.2.2.mono hext⟩
  responses hst d hd :=
    have hresponse := h.responses hst d hd
    ⟨hresponse.1, hresponse.2.mono hext⟩

/-- Execution is invisible to the protocol. -/
theorem Tracks.executed (hsame : SameExceptExecution s s') (h : Tracks f a i s) :
    Tracks f a i s' := by
  obtain ⟨n, t, m, rfl⟩ := hsame
  exact ⟨h.view, h.status, h.log, h.nonce, h.lastNormalView, h.commit, h.acks, h.votes,
    h.responses⟩

/-- In normal operation only the log and what is known of it matter. -/
theorem Tracks.of_normal (hst : s.status = .normal) (hview : (a.node i).view = s.view)
    (hstatus : (a.node i).status = .normal) (hlog : Represents s.log s.op (a.node i).log)
    (hcommit : Known f a s.view s.commit)
    (hacks : ∀ (n : Nat) (e : LogEntry), s.log[n]? = some e →
      ∀ q ∈ e.prepareOkAcks, q < 2 * f + 1 ∧ n ≤ a.promise q s.view) : Tracks f a i s where
  view := hview
  status := by rw [hstatus, hst]; rfl
  log := hlog
  nonce hrec := by rw [hst] at hrec; cases hrec
  lastNormalView hch := by rw [hst] at hch; cases hch
  commit := hcommit
  acks _ := hacks
  votes hch := by rw [hst] at hch; cases hch
  responses hrec := by rw [hst] at hrec; cases hrec

/-- A log off the wire: nobody has acknowledged any of it yet. -/
theorem Tracks.of_wire {log : Log} {l : List LogEntry} (hst : s.status = .normal)
    (hview : (a.node i).view = s.view) (hstatus : (a.node i).status = .normal)
    (hnode : (a.node i).log = l) (hlog : s.log = stripLog log) (hrep : Represents log s.op l)
    (hcommit : Known f a s.view s.commit) : Tracks f a i s := by
  refine .of_normal hst hview hstatus ?_ hcommit ?_
  · rw [hnode, hlog]
    exact hrep.strip
  · intro n e he q hq
    rw [hlog] at he
    rw [prepareOkAcks_stripLog he] at hq
    simp at hq

theorem Tracks.not_changing (h : Tracks f a i s) (hst : s.status ≠ .viewChange) :
    (a.node i).status ≠ .changing := by
  rw [h.status]
  cases hs : s.status <;> simp_all [ReplicaStatus.abs]

theorem Tracks.holds (hinv : Inv (config f) a) (hi : i < 2 * f + 1) (h : Tracks f a i s)
    (hst : s.status ≠ .viewChange) : Holds a s.view (a.node i).log :=
  h.view ▸ hinv.active i (mem_members.mpr hi) (h.not_changing hst)

theorem Tracks.started (hinv : Inv (config f) a) (hi : i < 2 * f + 1) (h : Tracks f a i s)
    (hst : s.status ≠ .viewChange) : Started a s.view := by
  obtain ⟨b, hb, -⟩ := h.holds hinv hi hst
  exact ⟨b, hb⟩

/-- What a replica outside a view change executes is committed, and is what
the log of its view has there. -/
theorem Tracks.performed (hinv : Inv (config f) a) (hi : i < 2 * f + 1) (h : Tracks f a i s)
    (hst : s.status ≠ .viewChange) {n : Nat} {e : LogEntry} (hn : n ≤ s.commit)
    (he : s.log[n]? = some e) : Performed f a s.view n e := by
  obtain ⟨b, hb, -, hlog⟩ := h.holds hinv hi hst
  refine ⟨entryAt_mono hlog (h.log.entryAt_some he), ?_⟩
  have hpos := (h.log.bounds he).1
  rcases h.commit with hzero | ⟨v', hle, hcom⟩
  · omega
  · exact ⟨v', hle, hcom.le hn⟩

end

/-! ## The relation -/

structure Refines (f : Nat) (c : Cluster) (a : Abs) : Prop where
  size : c.size = 2 * f + 1
  static : c.Static
  counts : c.Counts
  range : c.InRange
  inv : Inv (config f) a
  nodes : ∀ i < c.size, Tracks f a i (c.state i)
  sent : ∀ k m, c.Sent k m → Meaning f a k m
  mail : ∀ j, ∀ im ∈ c.pend j, isClientMessage im.message = true ∨ ∃ k, c.Sent k im.message
  executed : ∀ i v n e res, (i, Effect.executed v n e res) ∈ c.trace → Performed f a v n e
  nonces : ∀ j x v l, a.response j x v l → x ∈ c.nonces
  entries : ∀ v, ∀ e ∈ a.viewLog v, e.InRange
  length : ∀ v, (a.viewLog v).length < 2 ^ 64

/-- What the step of replica `i` to `s'`, with effects `effs`, is matched by. -/
structure Outcome (f : Nat) (c : Cluster) (a : Abs) (i : Nat) (s' : ReplicaState)
    (effs : List Effect) (a' : Abs) : Prop where
  step : a' = a ∨ Step (config f) a a'
  others : ∀ j, j ≠ i → a'.node j = a.node j
  tracks : Tracks f a' i s'
  sent : ∀ eff ∈ effs, ∀ m, eff.message? = some m → Meaning f a' i m
  executed : ∀ v n e res, Effect.executed v n e res ∈ effs → Performed f a' v n e
  nonces : ∀ j x v l, a'.response j x v l → a.response j x v l ∨ x ∈ c.nonces
  entries : ∀ v, ∀ e ∈ a'.viewLog v, e ∈ a.viewLog v ∨ e.InRange
  length : ∀ v, (a'.viewLog v).length < 2 ^ 64

section

variable {f i : Nat} {c c' : Cluster} {a a' : Abs} {ev : Event}

theorem extends_of_step (hinv : Inv (config f) a) (h : a' = a ∨ Step (config f) a a') :
    Inv (config f) a' ∧ Extends a a' ∧ ∀ j, (a.node j).view ≤ (a'.node j).view := by
  rcases h with rfl | h
  · exact ⟨hinv, .refl _, fun _ => Nat.le_refl _⟩
  · exact ⟨h.inv hinv, h.extends hinv⟩

theorem Refines.odd (h : Refines f c a) : c.size = 2 * ((c.size - 1) / 2) + 1 := by
  have := h.size
  omega

theorem Refines.faultToleranceF (h : Refines f c a) (i : Nat) :
    (c.state i).faultToleranceF = f := by
  rw [h.static.f, h.size]
  omega

/-- What the step of one replica owes the relation, wherever the protocol goes with it. -/
theorem Refines.of_matched (h : Refines f c a) (hstatic : c'.Static) (hcounts : c'.Counts)
    (hrange : c'.InRange) {s' : ReplicaState} {q' : List InboundMessage} {effs : List Effect}
    (hlocal : c.Local c' i s' q' effs) (hsub : q' ⊆ c.queue i) (hinv : Inv (config f) a')
    (hext : Extends a a') (hothers : ∀ j, j ≠ i → a'.node j = a.node j)
    (htracks : Tracks f a' i s')
    (hsent : ∀ eff ∈ effs, ∀ m, eff.message? = some m → Meaning f a' i m)
    (hexec : ∀ v n e res, Effect.executed v n e res ∈ effs → Performed f a' v n e)
    (hresponse : ∀ j x v l, a'.response j x v l → a.response j x v l ∨ x ∈ c.nonces)
    (hentries : ∀ v, ∀ e ∈ a'.viewLog v, e ∈ a.viewLog v ∨ e.InRange)
    (hlength : ∀ v, (a'.viewLog v).length < 2 ^ 64) : Refines f c' a' where
  size := hlocal.size.trans h.size
  static := hstatic
  counts := hcounts
  range := hrange
  inv := hinv
  nodes j hj := by
    by_cases hji : j = i
    · subst hji
      rw [hlocal.state_self]
      exact htracks
    · rw [hlocal.state_ne j hji]
      exact (h.nodes j (hlocal.size ▸ hj)).mono hext (hothers j hji)
  sent k m hm := by
    rcases hlocal.sent.mp hm with hm | ⟨rfl, eff, heff, hm⟩
    · exact (h.sent k m hm).mono hext
    · exact hsent eff heff m hm
  mail j im him := by
    rcases hlocal.mem_pend hsub him with him | him
    · exact (h.mail j im him).imp_right (Exists.imp fun k hk => hk.mono hlocal.trace_subset)
    · obtain ⟨eff, heff, hm, -⟩ := Cluster.mem_mail him
      exact Or.inr ⟨i, hlocal.sent.mpr (Or.inr ⟨rfl, eff, heff, hm⟩)⟩
  executed j v n e res hmem := by
    rcases hlocal.mem_trace.mp hmem with hmem | ⟨rfl, heff⟩
    · exact (h.executed j v n e res hmem).mono hext
    · exact hexec v n e res heff
  nonces j x v l hr := by
    have hnonces := Cluster.nonces_mono hlocal.trace_subset
    rcases hresponse j x v l hr with hr | hx
    · exact hnonces (h.nonces j x v l hr)
    · exact hnonces hx
  entries v e he := by
    rcases hentries v e he with he | he
    · exact h.entries v e he
    · exact he
  length := hlength

/-- What the step of one replica owes the relation, if the protocol makes a step of its own. -/
theorem Refines.of_local (h : Refines f c a) (hsmall : 2 * f + 1 ≤ 2 ^ 8)
    (hok : c.Admissible ev c') (hmoves : c.Moves ev c') (hstatic : c'.Static)
    {s' : ReplicaState} {q' : List InboundMessage} {effs : List Effect}
    (hlocal : c.Local c' i s' q' effs) (hsub : q' ⊆ c.queue i)
    (hout : Outcome f c a i s' effs a') : Refines f c' a' := by
  obtain ⟨hinv, hext, hviews⟩ := extends_of_step h.inv hout.step
  have hview : (c.state i).view ≤ s'.view := by
    rw [← (h.nodes i hlocal.lt).view, ← hout.tracks.view]
    exact hviews i
  have hmono : ∀ j, (c.state j).view ≤ (c'.state j).view :=
    hlocal.state_rel (P := fun s t => s.view ≤ t.view) (fun _ => Nat.le_refl _) hview
  exact h.of_matched hstatic
    (h.counts.step hmoves h.static h.odd (h.size.trans_le hsmall) h.range hok hmono) hok.range
    hlocal hsub hinv hext hout.others hout.tracks hout.sent hout.executed hout.nonces hout.entries
    hout.length

/-- What a replica that starts over owes the relation: its state, whatever it is, is that of
its member. -/
theorem Refines.of_reset (h : Refines f c a) (hstatic : c'.Static) (hcounts : c'.Counts)
    (hrange : c'.InRange) (hsize : c'.size = c.size)
    (hne : ∀ j, j ≠ i → c'.state j = c.state j) (htrace : c'.trace = c.trace)
    (hpend : ∀ j, c'.pend j = if j = i then [] else c.pend j) (hinv : Inv (config f) a')
    (hext : Extends a a') (hothers : ∀ j, j ≠ i → a'.node j = a.node j)
    (hself : Tracks f a' i (c'.state i)) (hresponse : a'.response = a.response)
    (hviewLog : a'.viewLog = a.viewLog) : Refines f c' a' where
  size := hsize.trans h.size
  static := hstatic
  counts := hcounts
  range := hrange
  inv := hinv
  nodes j hj := by
    by_cases hji : j = i
    · exact hji ▸ hself
    · rw [hne j hji]
      exact (h.nodes j (hsize ▸ hj)).mono hext (hothers j hji)
  sent k m hm := (h.sent k m ((Cluster.sent_congr htrace).mp hm)).mono hext
  mail j im him := by
    rw [hpend] at him
    split at him
    · cases him
    · exact (h.mail j im him).imp_right (Exists.imp fun k hk => (Cluster.sent_congr htrace).mpr hk)
  executed j v n e res hexec := (h.executed j v n e res (htrace ▸ hexec)).mono hext
  nonces j x v l hr := by
    rw [Cluster.nonces, htrace]
    exact h.nonces j x v l (hresponse ▸ hr)
  entries v := hviewLog ▸ h.entries v
  length v := hviewLog ▸ h.length v

/-- A step that changes no replica. -/
theorem Refines.of_quiet (h : Refines f c a) (hsmall : 2 * f + 1 ≤ 2 ^ 8)
    (hok : c.Admissible ev c') (hmoves : c.Moves ev c') (hstatic : c'.Static)
    (hstate : ∀ j, c'.state j = c.state j) (htrace : c'.trace = c.trace)
    (hmem : ∀ j, ∀ im ∈ c'.pend j, im ∈ c.pend j
      ∨ (∃ fd, im.connection = .client fd) ∧ isClientMessage im.message = true) :
    Refines f c' a where
  size := hmoves.size.trans h.size
  static := hstatic
  counts := h.counts.step hmoves h.static h.odd (h.size.trans_le hsmall) h.range hok
    fun j => by rw [hstate]
  range := hok.range
  inv := h.inv
  nodes j hj := by rw [hstate]; exact h.nodes j (hmoves.size ▸ hj)
  sent k m hm := h.sent k m ((Cluster.sent_congr htrace).mp hm)
  mail j im him := by
    rcases hmem j im him with him | ⟨-, hclient⟩
    · exact (h.mail j im him).imp_right (Exists.imp fun k hk => hk.mono hmoves.trace_subset)
    · exact Or.inl hclient
  executed j v n e res hmem := h.executed j v n e res (htrace ▸ hmem)
  nonces j x v l hr := by rw [Cluster.nonces, htrace]; exact h.nonces j x v l hr
  entries := h.entries
  length := h.length

end

end VsrKv
