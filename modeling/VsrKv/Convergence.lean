import VsrKv.Agreement
import VsrKv.DecidedLog

/-!
# Replicas that converge

Where no request is logged twice, the key-value map of a replica depends
on nothing but how many ops it has executed (`machines_converge`), and
no replica applies a request twice (`applied_at_most_once`). The program
does log requests twice. The client table keeps one request number a
client, and executing an older request of a client that has several
outstanding puts the older number back; a newer one, resent, then looks
new. Whether the second copy is executed or skipped depends on what a
replica has heard of by then, and so replicas come to differ
(`machines_diverge`, `request_applied_twice`).
-/

namespace VsrKv

open Replica Viewstamped TransitionSystem
open Event (process receive request)

/-- The log has an entry for the request. -/
def ReplicaState.hasLogged (s : ReplicaState) (key : UInt128 × Nat) : Bool :=
  s.log.toList.any (·.2.key == key)

theorem ReplicaState.hasLogged_of_getElem? {s : ReplicaState} {n : Nat} {e : LogEntry}
    (h : s.log[n]? = some e) : s.hasLogged e.key = true := by
  have hmem : (n, e) ∈ s.log.toList := Std.ExtTreeMap.mem_toList_iff_getElem?_eq_some.mpr h
  exact List.any_eq_true.mpr ⟨(n, e), hmem, beq_self_eq_true _⟩

/-- A request that is taken for new is new to the primary's log. -/
def Cluster.LogsOnce (c : Cluster) (ev : Event) : Prop :=
  ∀ i ∈ ev.ticked?, ∀ im ∈ (c.queue i).head?, takesForNew (c.state i) im.message = true →
    (c.state i).hasLogged (im.message.header.client, im.message.header.request) = false

instance (c : Cluster) (ev : Event) : Decidable (c.LogsOnce ev) :=
  inferInstanceAs (Decidable (∀ i ∈ ev.ticked?, _))

/-- A step of a run with view changes only in which no primary logs a request
it has in its log. -/
def Cluster.FreshRequests (c : Cluster) (ev : Event) (c' : Cluster) : Prop :=
  c.ViewChangesOnly ev c' ∧ c.LogsOnce ev

instance (c : Cluster) (ev : Event) (c' : Cluster) : Decidable (c.FreshRequests ev c') :=
  inferInstanceAs (Decidable (_ ∧ _))

/-! ## No request is decided twice -/

/-- `e` is what any replica executes at `n`. -/
def Decided (f : Nat) (a : Abs) (n : Nat) (e : LogEntry) : Prop := ∃ v, Performed f a v n e

theorem entryAt_key_inj {l : List LogEntry} (hnodup : (l.map LogEntry.key).Nodup) {n n' : Nat}
    {e e' : LogEntry} (he : entryAt l n = some e) (he' : entryAt l n' = some e')
    (hkey : e.key = e'.key) : n = n' := by
  cases n with
  | zero => cases he
  | succ n =>
      cases n' with
      | zero => cases he'
      | succ n' =>
          obtain ⟨hn, rfl⟩ := List.getElem?_eq_some_iff.mp he
          obtain ⟨hn', rfl⟩ := List.getElem?_eq_some_iff.mp he'
          have hinj : (⟨n, by simpa using hn⟩ : Fin (l.map LogEntry.key).length)
              = ⟨n', by simpa using hn'⟩ :=
            List.nodup_iff_injective_get.mp hnodup (by simpa using hkey)
          exact congrArg (·.val + 1) hinj

section

variable {f i : Nat} {c c' : Cluster} {a a' : Abs} {ev : Event}

theorem Safe.once (h : Safe f c a) (hdistinct : ∀ v, ((a.viewLog v).map LogEntry.key).Nodup) :
    Once (Decided f a) := by
  -- the log of the view that decided the later op has both
  have hle : ∀ n n' e e', n ≤ n' → Decided f a n e → Decided f a n' e' → e.key = e'.key →
      n = n' := by
    rintro n n' e e' hnn ⟨v, he, v', hv, hcom⟩ ⟨w, he', w', hw, hcom'⟩ hkey
    have hbound := entryAt_isSome he'
    obtain ⟨e'', he''⟩ := exists_entryAt (l := a.viewLog w) (entryAt_isSome he).1
      (hnn.trans hbound.2)
    obtain rfl := h.committed_agree hcom hv he (hcom'.le hnn) hw he''
    exact entryAt_key_inj (hdistinct w) he'' he' hkey
  intro n n' e e' hdec hdec' hkey
  rcases Nat.le_total n n' with hnn | hnn
  · exact hle n n' e e' hnn hdec hdec' hkey
  · exact (hle n' n e' e hnn hdec' hdec hkey.symm).symm

/-- A primary that has one more entry than before has just taken a request for
new. -/
theorem Refines.proposed (h : Refines f c a) {e : LogEntry} (h' : Refines f c' (a.propose i e))
    (hmoves : c.Moves ev c') (hrestart : ev.restarted? = none)
    (hst : (a.node i).status = .normal) (hp : i = (config f).primary (a.node i).view) :
    i ∈ ev.ticked? ∧ ∃ im ∈ (c.queue i).head?, takesForNew (c.state i) im.message = true
      ∧ e.key = (im.message.header.client, im.message.header.request) := by
  have hi : i < c.size := by
    rw [h.size, hp]
    exact Nat.mod_lt _ (by omega)
  have htracks := h.nodes i hi
  have hlog' := (h'.nodes i (hmoves.size.symm ▸ hi)).log
  have hnode : ((a.propose i e).node i).log = (a.node i).log ++ [e] := by
    simp [State.propose, State.set]
  rw [hnode] at hlog'
  have hgrown : (c'.state i).op = (c.state i).op + 1 := by
    rw [hlog'.op, htracks.log.op, List.length_append, List.length_singleton]
  have hnormal : (c.state i).status = .normal :=
    ReplicaStatus.abs_injective (htracks.status.symm.trans hst)
  have hprimary : (c.state i).isPrimary = true := by
    rw [h.static.isPrimary h.odd, decide_eq_true_iff, h.size, ← htracks.view]
    exact hp
  have hchanges := hmoves.changes i
  generalize c'.state i = s' at hchanges hgrown hlog'
  cases hchanges with
  | same => omega
  | enterView => change (c.state i).op = _ at hgrown; omega
  | enterRecovery => change (c.state i).op = _ at hgrown; omega
  | restart hev => rw [hev] at hrestart; cases hrestart
  | act env im rest s' effs _ hev hqueue hstale hacts =>
      cases hacts with
      | propose hcmd _ _ hnew =>
          refine ⟨by rw [hev]; rfl, im, by rw [hqueue]; rfl, ?_, ?_⟩
          · simp [takesForNew, hcmd, checkCanProcessRequest, hnormal, hprimary, hnew]
          · have he := entryAt_append_length (a.node i).log e
            obtain ⟨e', he', rfl⟩ := hlog'.exists_get he
            have hop : (a.node i).log.length + 1 = u64 ((c.state i).op + 1) := by
              rw [← htracks.log.op]
              exact hgrown.symm
            rw [hop] at he'
            simp only [appendEntry, touched, Std.ExtTreeMap.getElem?_insert_self,
              Option.some.injEq] at he'
            rw [← he']
            rfl
      | accept s' effs hcmd _ hbackup => cases hprimary.symm.trans hbackup
      | acknowledge entry s' effs hcmd _ _ _ _ hexec =>
          obtain ⟨n, t, m, rfl⟩ := hexec.state
          exact absurd hgrown (by simp [advanced, recordAck])
      | learn s' effs hcmd _ hbackup => cases hprimary.symm.trans hbackup
      | startView s₁ d hd => cases hnormal.symm.trans hd.status
      | collect s₁ d hd => cases hnormal.symm.trans hd.status
      | adopt payload s' effs hcmd _ hchanging => cases hnormal.symm.trans hchanging
      | recover payload hcmd hrecovery => cases hnormal.symm.trans hrecovery
      | ignore => omega
      | pong => omega
      | old => exact absurd hgrown (by simp [touched])
      | join => exact absurd hgrown (by simp)
      | vote => exact absurd hgrown (by simp)
      | discard => exact absurd hgrown (by simp)
      | respond => omega
      | gather => exact absurd hgrown (by simp)

/-- View logs keep having no request twice. -/
theorem Refines.distinct_step (h : Refines f c a) (h' : Refines f c' a')
    (hmove : a' = a ∨ Step (config f) a a') (hmoves : c.Moves ev c')
    (hrestart : ev.restarted? = none) (honce : c.LogsOnce ev)
    (hdistinct : ∀ v, ((a.viewLog v).map LogEntry.key).Nodup) :
    ∀ v, ((a'.viewLog v).map LogEntry.key).Nodup := by
  rcases hmove with rfl | hstep
  · exact hdistinct
  · refine hstep.viewLog_induct (P := fun l => (l.map LogEntry.key).Nodup)
      (fun hle hnodup => hnodup.sublist (hle.sublist.map _)) h.inv hdistinct ?_
    rintro i e rfl hst hp
    obtain ⟨hticked, im, him, hnew, hkey⟩ := h.proposed h' hmoves hrestart hst hp
    have hunlogged := honce i hticked im him hnew
    have hlog := (h.inv.leads hst hp).2.2
    rw [List.map_append, List.nodup_append]
    refine ⟨by rw [hlog]; exact hdistinct _, by simp, ?_⟩
    intro k hk k' hk' heq
    rw [List.map_singleton, List.mem_singleton] at hk'
    obtain ⟨e', he', rfl⟩ := List.mem_map.mp hk
    -- the primary's log would have the request
    obtain ⟨n, hn⟩ := exists_entryAt_of_mem he'
    have hi : i < c.size := by rw [h.size, hp]; exact Nat.mod_lt _ (by omega)
    obtain ⟨e'', he'', rfl⟩ := (h.nodes i hi).log.exists_get hn
    have hlogged := ReplicaState.hasLogged_of_getElem? he''
    rw [show e''.key = e''.strip.key from rfl, heq, hk', hkey, hunlogged] at hlogged
    cases hlogged

/-! ## Runs -/

/-- The cluster is safe, no request is in a log twice, and every replica has
applied decided entries. -/
structure Converges (f : Nat) (c : Cluster) (a : Abs) : Prop where
  safe : Safe f c a
  distinct : ∀ v, ((a.viewLog v).map LogEntry.key).Nodup
  applied : ∀ i < c.size, ∃ l, Applied (Decided f a) (c.history i) (c.state i) l

theorem Converges.once (h : Converges f c a) : Once (Decided f a) := h.safe.once h.distinct

theorem converges_init (f : Nat) :
    Converges f (Cluster.init (2 * f + 1)) (Viewstamped.initial {}) where
  safe := safe_init f
  distinct v := List.nodup_nil
  applied i _ := by
    refine ⟨[], rfl, ?_, by simp, rfl, rfl, ?_⟩
    · intro n e he
      have := entryAt_isSome he
      simp at this
      omega
    · intro client hexec
      simp [ReplicaState.clientEntry, Cluster.state, Cluster.init, Cluster.freshNode,
        ReplicaState.new] at hexec

theorem Converges.step (h : Converges f c a) (hsmall : 2 * f + 1 ≤ 2 ^ 8)
    (hstep : c.step ev = some c') (hok : c.FreshRequests ev c') :
    ∃ a', Converges f c' a' ∧ Extends a a' := by
  obtain ⟨honly, honce⟩ := hok
  obtain ⟨hadm, hkeeps⟩ := honly.admissible
  obtain ⟨a', hsafe, hmove⟩ := h.safe.step hsmall hstep hadm (Or.inr hkeeps)
  have hext := (extends_of_step h.safe.refines.inv hmove).2.1
  have hmoves := Cluster.step_moves h.safe.refines.static hstep
  have hdistinct := h.safe.refines.distinct_step hsafe.refines hmove hmoves honly.2.1 honce
    h.distinct
  refine ⟨a', ⟨hsafe, hdistinct, ?_⟩, hext⟩
  intro j hj
  have hsize := hmoves.size
  have hj₀ : j < c.size := hsize ▸ hj
  obtain ⟨l, hl⟩ := h.applied j hj₀
  have hl : Applied (Decided f a') (c.history j) (c.state j) l :=
    hl.mono fun n e ⟨v, hperf⟩ => ⟨v, hperf.mono hext⟩
  -- replicas that execute nothing
  have hlocal : ∀ {i : Nat} {s' : ReplicaState} {q' : List InboundMessage} {effs : List Effect},
      c.Local c' i s' q' effs → s'.lastExecutedOp = (c.state i).lastExecutedOp →
      s'.stateMachine = (c.state i).stateMachine → s'.clientTable = (c.state i).clientTable →
      (∀ eff ∈ effs, eff.applied? = none) →
      ∃ l, Applied (Decided f a') (c'.history j) (c'.state j) l := by
    intro i s' q' effs hlocal hop hmachine htable heffs
    rw [hlocal.history]
    by_cases hji : j = i
    · subst hji
      rw [if_pos rfl, hlocal.state_self]
      refine ⟨l, (hl.append heffs).of_same hop hmachine ?_⟩
      intro client _
      rw [ReplicaState.clientEntry, htable]
      rfl
    · rw [if_neg hji, hlocal.state_ne j hji]
      exact ⟨l, hl⟩
  have hquiet : (∀ k, c'.state k = c.state k) → c'.trace = c.trace →
      ∃ l, Applied (Decided f a') (c'.history j) (c'.state j) l := by
    intro hstate htrace
    rw [hstate, Cluster.history, htrace]
    exact ⟨l, hl⟩
  cases hmoves with
  | quiet _ hstate htrace => exact hquiet hstate htrace
  | duplicate _ _ _ hstate htrace => exact hquiet hstate htrace
  | enterView i s' _ hs' hl =>
      exact hlocal hl (by rw [hs']; rfl) (by rw [hs']; rfl) (by rw [hs']; rfl)
        (by simp [Effect.applied?])
  | enterRecovery i stuck rest nonce s' _ _ _ _ hs' hl =>
      exact hlocal hl (by rw [hs']) (by rw [hs']) (by rw [hs']) (by simp [Effect.applied?])
  | heartbeat i _ _ hl => exact hlocal hl rfl rfl rfl (by simp [Effect.applied?])
  | restart i hev => rw [hev] at honly; cases honly.2.1
  | act i env hev im rest s' effs hqueue hstale hacts hlocal' =>
      rw [hlocal'.history]
      by_cases hji : j = i
      · subst hji
        have htracks := hsafe.refines.nodes j hj
        rw [hlocal'.state_self] at htracks ⊢
        rw [if_pos rfl]
        refine hacts.applied hl (hsafe.once hdistinct) (fun n e ⟨v, hperf⟩ => ⟨v, hperf⟩)
          (honly.2.2.2 j hj₀).1 fun hst n e hn he => ⟨s'.view, ?_⟩
        exact htracks.performed hsafe.refines.inv (hsafe.refines.lt hj) (by simp [hst]) hn he
      · rw [if_neg hji, hlocal'.state_ne j hji]
        exact ⟨l, hl⟩

theorem Converges.run (h : Converges f c a) (hsmall : 2 * f + 1 ≤ 2 ^ 8)
    (run : Cluster.Run Cluster.FreshRequests c c') :
    ∃ a', Converges f c' a' ∧ Extends a a' := by
  exact run.simulation .refl .trans (fun h hstep hok => h.step hsmall hstep hok) h

end

/-- At any two moments of a run, replicas that have executed equally many ops
have equal maps. -/
def Cluster.MachinesAgree (c₁ c₂ : Cluster) : Prop :=
  ∀ i j, i < c₁.size → j < c₂.size →
    (c₁.state i).lastExecutedOp = (c₂.state j).lastExecutedOp →
      (c₁.state i).stateMachine = (c₂.state j).stateMachine

theorem machines_converge (f : Nat) (hsmall : 2 * f + 1 ≤ 256) {c₁ c₂ : Cluster}
    (run₁ : Cluster.Run Cluster.FreshRequests (Cluster.init (2 * f + 1)) c₁)
    (run₂ : Cluster.Run Cluster.FreshRequests c₁ c₂) : c₁.MachinesAgree c₂ := by
  obtain ⟨a₁, h₁, -⟩ := (converges_init f).run hsmall run₁
  obtain ⟨a₂, h₂, hext⟩ := h₁.run hsmall run₂
  intro i j hi hj hop
  obtain ⟨l₁, hl₁⟩ := h₁.applied i hi
  obtain ⟨l₂, hl₂⟩ := h₂.applied j hj
  have hl₁ : Applied (Decided f a₂) (c₁.history i) (c₁.state i) l₁ :=
    hl₁.mono fun n e ⟨v, hperf⟩ => ⟨v, hperf.mono hext⟩
  have heq := hl₁.unique hl₂ (fun n e e' ⟨v, hperf⟩ ⟨w, hperf'⟩ =>
    h₂.safe.performed_agree hperf hperf') hop
  rw [hl₁.machine, hl₂.machine, heq]

/-- Replica 0 executes two requests of client 1. -/
def executedTwo : List Event :=
  request 0 7 (setRequest 1 1 [97, 32, 97]) ++ request 0 7 (setRequest 1 2 [97, 32, 98])
    ++ receive 0 1 ++ receive 1 1 ++ receive 2 0 ++ receive 2 0

theorem machines_converge_backup :
    ∃ c₁ c₂, Cluster.Run Cluster.FreshRequests (Cluster.init (2 * 1 + 1)) c₁
      ∧ Cluster.Run Cluster.FreshRequests c₁ c₂
      ∧ ((c₁.state 0).lastExecutedOp = 2 ∧ (c₂.state 1).lastExecutedOp = 2
        ∧ (c₂.state 1).stateMachine[([97] : Bytes)]? = some [98])
      ∧ c₁.MachinesAgree c₂ := by
  obtain ⟨c₁, c₂, run₁, run₂, h⟩ := exists_of_replay₂ Cluster.step Cluster.FreshRequests
    (Cluster.init (2 * 1 + 1)) executedTwo ([.heartbeat 0] ++ receive 2 1)
    (P := fun c₁ c₂ => (c₁.state 0).lastExecutedOp = 2 ∧ (c₂.state 1).lastExecutedOp = 2
      ∧ (c₂.state 1).stateMachine[([97] : Bytes)]? = some [98]) (by decide +kernel)
  exact ⟨c₁, c₂, run₁, run₂, h, machines_converge 1 (by norm_num) run₁ run₂⟩

/-- Client 1 sends requests 1 and 2, and client 2 one of its own. Executing
request 1 makes the primary forget that it has logged request 2, which is
logged again when it is resent. -/
def loggedTwice : List Event :=
  request 0 7 (setRequest 1 1 [97, 32, 97]) ++ request 0 7 (setRequest 1 2 [97, 32, 98])
    ++ request 0 8 (setRequest 2 1 [97, 32, 99]) ++ receive 0 1 ++ receive 5 0
    ++ request 0 7 (setRequest 1 2 [97, 32, 98])

/-- Replica 1 executes the first copy before it hears of the second. -/
def executedBetween : List Event :=
  receive 1 1 ++ receive 2 1 ++ receive 5 0 ++ receive 5 0 ++ [.heartbeat 0] ++ receive 5 1
    ++ receive 3 1 ++ receive 5 0 ++ [.heartbeat 0] ++ receive 5 1

theorem machines_diverge :
    ∃ c, Cluster.Run Cluster.ViewChangesOnly (Cluster.init (2 * 1 + 1)) c
      ∧ ¬c.MachinesAgree c := by
  obtain ⟨c, run, h₀, h₁, hop, hne⟩ := exists_of_replay Cluster.step Cluster.ViewChangesOnly
    (Cluster.init (2 * 1 + 1)) (loggedTwice ++ executedBetween)
    (P := fun c => 0 < c.size ∧ 1 < c.size
      ∧ (c.state 0).lastExecutedOp = (c.state 1).lastExecutedOp
      ∧ (c.state 0).stateMachine[([97] : Bytes)]? ≠ (c.state 1).stateMachine[([97] : Bytes)]?)
    (by decide +kernel)
  exact ⟨c, run, fun hagree => hne (by rw [hagree 0 1 h₀ h₁ hop])⟩

/-- No replica has applied the operation of one request twice. -/
def Cluster.AppliedOnce (c : Cluster) : Prop :=
  ∀ i < c.size, ((c.history i).filterMap Effect.applied?).Nodup

theorem applied_at_most_once (f : Nat) (hsmall : 2 * f + 1 ≤ 256) {c : Cluster}
    (run : Cluster.Run Cluster.FreshRequests (Cluster.init (2 * f + 1)) c) : c.AppliedOnce := by
  obtain ⟨a, h, -⟩ := (converges_init f).run hsmall run
  intro i hi
  obtain ⟨l, hl⟩ := h.applied i hi
  exact hl.nodup h.once

theorem applied_at_most_once_two :
    ∃ c, Cluster.Run Cluster.FreshRequests (Cluster.init (2 * 1 + 1)) c
      ∧ ((c.history 0).filterMap Effect.applied?).length = 2 ∧ c.AppliedOnce := by
  obtain ⟨c, run, h⟩ := exists_of_replay Cluster.step Cluster.FreshRequests
    (Cluster.init (2 * 1 + 1)) executedTwo
    (P := fun c => ((c.history 0).filterMap Effect.applied?).length = 2) (by decide +kernel)
  exact ⟨c, run, h, applied_at_most_once 1 (by norm_num) run⟩

theorem request_applied_twice :
    ∃ c, Cluster.Run Cluster.ViewChangesOnly (Cluster.init (2 * 1 + 1)) c ∧ ¬c.AppliedOnce := by
  obtain ⟨c, run, hsize, htwice⟩ := exists_of_replay Cluster.step Cluster.ViewChangesOnly
    (Cluster.init (2 * 1 + 1)) (loggedTwice ++ executedBetween)
    (P := fun c => 1 < c.size ∧ ¬((c.history 1).filterMap Effect.applied?).Nodup)
    (by decide +kernel)
  exact ⟨c, run, fun honce => htwice (honce 1 hsize)⟩

end VsrKv
