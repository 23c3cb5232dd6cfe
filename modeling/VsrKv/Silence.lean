import VsrKv.Recovery

/-!
# Replicas with nothing to say

A replica that comes up without its log and speaks for none has little
left to do. It answers pings, learns a commit number, gathers responses
and recovers (`Acts.of_blank`). Until it recovers it stays as it came up
(`Blank`).
-/

namespace VsrKv

open Replica Viewstamped

/-- The message says something of the log of its sender, by its view and op number or in
its payload. -/
def VsrMessage.speaksForLog (m : VsrMessage) : Bool :=
  match m.header.command with
  | .prepare | .prepareOk | .startViewChange | .doViewChange | .startView | .recoveryResponse =>
      true
  | _ => false

def Effect.speaksForLog (eff : Effect) : Bool := eff.message?.any (·.speaksForLog)

/-- A replica that has not spoken for its log since it forgot it is as good as new, but
for what it has learned of others. -/
structure Blank (f : Nat) (a : Abs) (t : ReplicaState) : Prop where
  view : t.view = 0
  op : t.op = 0
  log : t.log = ∅
  status : t.status ≠ .viewChange
  votes : t.doViewChangeReceived = []
  commit : Known f a 0 t.commit
  responses : t.status = .recovery → ∀ m ∈ t.recoveryResponses,
    m.header.command = .recoveryResponse ∧ Meaning f a m.header.replica m

section

variable {f i : Nat} {a a' : Abs} {t t' : ReplicaState}

theorem Blank.mono (hext : Extends a a') (h : Blank f a t) : Blank f a' t :=
  ⟨h.view, h.op, h.log, h.status, h.votes, h.commit.mono hext,
    fun hst m hm => (h.responses hst m hm).imp_right (Meaning.mono hext)⟩

theorem blank_new (f : Nat) (a : Abs) (i : Nat) (config : List PeerConfig) :
    Blank f a (.new i config) where
  view := rfl
  op := rfl
  log := rfl
  status h := by cases h
  votes := rfl
  commit := Or.inl rfl
  responses h := by cases h

theorem Blank.pristine (h : Blank f a t) : t.Pristine := ⟨h.view, h.op⟩

/-- With no log there is nothing to execute. -/
theorem Blank.executed (h : Blank f a t) {effs : List Effect} (hexec : Executed t t' effs) :
    Blank f a t' ∧ ∀ v n e res, Effect.executed v n e res ∉ effs := by
  refine ⟨?_, ?_⟩
  · obtain ⟨n, table, machine, rfl⟩ := hexec.state
    exact ⟨h.view, h.op, h.log, h.status, h.votes, h.commit, h.responses⟩
  · intro v n e res heff
    cases hexec.effects _ heff with
    | executed n e res hn hlog =>
        rw [h.log] at hlog
        simp at hlog

/-- A move of such a replica in which it recovers nothing. -/
structure SaysNothing (f : Nat) (a : Abs) (i : Nat) (t t' : ReplicaState) (effs : List Effect) :
    Prop where
  blank : Blank f a t'
  status : t'.status = t.status
  sent : ∀ eff ∈ effs, ∀ m, eff.message? = some m → Meaning f a i m ∧ Uncounted m
  executed : ∀ v n e res, Effect.executed v n e res ∉ effs

/-- A move that completes its recovery. -/
structure Recovers (f : Nat) (a : Abs) (t : ReplicaState) (im : InboundMessage)
    (t' : ReplicaState) (effs : List Effect) : Prop where
  completes : completesRecovery t im.message = true
  adopts : ∃ first others s₁, t.recoveryResponses ++ [im.message] = first :: others
    ∧ Executed (adoptResponse t (others.foldl betterResponse first)) s₁ effs
    ∧ t' = { s₁ with recoveryNonce := {}, recoveryResponses := [] }
  responses : ∀ m ∈ t.recoveryResponses ++ [im.message],
    m.header.command = .recoveryResponse ∧ Meaning f a m.header.replica m

theorem Recovers.status {im : InboundMessage} {effs : List Effect}
    (h : Recovers f a t im t' effs) : t.status = .recovery ∧ t'.status = .normal := by
  obtain ⟨first, others, s₁, -, hexec, rfl⟩ := h.adopts
  obtain ⟨n, table, machine, rfl⟩ := hexec.state
  have hcompletes := h.completes
  simp only [completesRecovery, Bool.and_eq_true, beq_iff_eq] at hcompletes
  exact ⟨hcompletes.1.1.1.1, rfl⟩

/-- The responses collected, the new one included, mean what they should. -/
theorem Blank.gathered (h : Blank f a t) {im : InboundMessage} (hst : t.status = .recovery)
    (hcmd : im.message.header.command = .recoveryResponse)
    (hmail : im.message.header.command ≠ .request → im.message.header.command ≠ .ping →
      ∃ k, Meaning f a k im.message) :
    ∀ m ∈ t.recoveryResponses ++ [im.message],
      m.header.command = .recoveryResponse ∧ Meaning f a m.header.replica m := by
  intro m hm
  rcases List.mem_append.mp hm with hm | hm
  · exact h.responses hst m hm
  · rw [List.mem_singleton.mp hm]
    obtain ⟨k, hmeaning⟩ := hmail (by simp [hcmd]) (by simp [hcmd])
    have hreplica := hmeaning.2
    simp only [hcmd] at hreplica
    exact ⟨hcmd, hreplica.1 ▸ hmeaning⟩

/-- A commit number is all such a replica learns of its view. -/
theorem Blank.raise (h : Blank f a t) {im : InboundMessage}
    (hcmd : im.message.header.command = .commit) (hview : im.message.header.view = t.view)
    (hmail : im.message.header.command ≠ .request → im.message.header.command ≠ .ping →
      ∃ k, Meaning f a k im.message) :
    Blank f a (raiseTo t im.message.header.commit) := by
  obtain ⟨k, -, hmeaning⟩ := hmail (by simp [hcmd]) (by simp [hcmd])
  simp only [hcmd, hview, h.view] at hmeaning
  unfold raiseTo
  split
  · exact ⟨h.view, h.op, h.log, h.status, h.votes, hmeaning.2, h.responses⟩
  · exact h

theorem Acts.of_blank {env : Env} {im : InboundMessage} {effs : List Effect}
    (hacts : Acts env t im t' effs) (h : Blank f a t) (hi : i < 2 * f + 1)
    (hstarted : Started a 0) (hstale : Node.isStale t im.message = false)
    (hmail : im.message.header.command ≠ .request → im.message.header.command ≠ .ping →
      ∃ k, Meaning f a k im.message)
    (hsilent : ∀ eff ∈ effs, eff.speaksForLog = false) :
    SaysNothing f a i t t' effs ∨ Recovers f a t im t' effs := by
  cases hacts with
  | ignore =>
      exact Or.inl ⟨h, rfl, (fun _ heff => by cases heff), (fun _ _ _ _ heff => by cases heff)⟩
  | pong msg hcmd hmsg =>
      refine Or.inl ⟨h, rfl, ?_, by simp⟩
      exact forall_message_singleton rfl ⟨⟨hi, by simp [hmsg]⟩, by simp [Uncounted, hmsg]⟩
  | old hcmd hst hprimary effs heffs =>
      refine Or.inl ⟨⟨h.view, h.op, h.log, h.status, h.votes, h.commit, h.responses⟩, rfl, ?_, ?_⟩
      · intro eff heff m hm
        obtain ⟨-, rfl⟩ := heffs eff heff
        cases hm
        exact ⟨⟨hi, hstarted⟩, by simp [Uncounted, cachedReply]⟩
      · intro v n e res heff
        cases (heffs _ heff).2
  | propose =>
      have := hsilent _ (List.mem_singleton_self _)
      simp [Effect.speaksForLog, Effect.message?, VsrMessage.speaksForLog, prepareMessage] at this
  | accept =>
      have := hsilent _ List.mem_cons_self
      simp [Effect.speaksForLog, Effect.message?, VsrMessage.speaksForLog, prepareOkMessage]
        at this
  | acknowledge entry s' effs hcmd hst hprimary hview hentry hexec =>
      rw [h.log] at hentry
      simp at hentry
  | learn s' effs hcmd hst hprimary hview hexec =>
      obtain ⟨hblank, hexecuted⟩ := (h.raise hcmd hview hmail).executed hexec
      refine Or.inl ⟨hblank, ?_, ?_, hexecuted⟩
      · obtain ⟨n, table, machine, rfl⟩ := hexec.state
        unfold raiseTo
        split <;> rfl
      · intro eff heff m hm
        cases hexec.effects eff heff with
        | executed => cases hm
        | reply conn e res =>
            cases hm
            have hview : (raiseTo t im.message.header.commit).view = 0 :=
              (h.raise hcmd hview hmail).view
            exact ⟨⟨hi, hview ▸ hstarted⟩, by simp [Uncounted, replyMessage]⟩
  | respond =>
      have := hsilent _ (List.mem_singleton_self _)
      simp [Effect.speaksForLog, Effect.message?, VsrMessage.speaksForLog, recoveryResponseMessage]
        at this
  | gather payload hcmd hst hpayload hnonce =>
      exact Or.inl ⟨⟨h.view, h.op, h.log, h.status, h.votes, h.commit,
        fun _ => h.gathered hst hcmd hmail⟩, rfl, (fun _ heff => by cases heff),
        (fun _ _ _ _ heff => by cases heff)⟩
  | recover payload hcmd hst hpayload hnonce first others hresponses hquorum s₁ effs hexec =>
      exact Or.inr ⟨completesRecovery_of_recover hcmd hst hstale hpayload hnonce hresponses hquorum,
        ⟨first, others, s₁, hresponses, hexec, rfl⟩, h.gathered hst hcmd hmail⟩
  | join hcmd hview hst => exact absurd hst h.status
  | vote p hcmd hview hst => exact absurd hst h.status
  | discard hcmd hview hst => exact absurd hst h.status
  | collect s₁ d hcollect => exact absurd hcollect.status h.status
  | startView s₁ d hcollect => exact absurd hcollect.status h.status
  | adopt payload s' effs hcmd hview hst => exact absurd hst h.status

end

end VsrKv
