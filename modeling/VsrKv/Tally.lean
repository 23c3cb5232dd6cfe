import VsrKv.Runs

/-!
# Handling a message, for the books

Which messages are counted somewhere, and what handling a message does
to those counts (`Tally`): it puts a ticket in the set, spends the set on
a vote, collects a vote, answers a recovery request, gathers a response,
or does nothing of the kind.
-/

namespace VsrKv

open Replica

/-! ## The messages that are counted -/

def isStartViewChange (w : Nat) (m : VsrMessage) : Bool :=
  m.header.command == .startViewChange && m.header.view == w

def isDoViewChange (w s : Nat) (m : VsrMessage) : Bool :=
  m.header.command == .doViewChange && m.header.view == w && m.header.replica == s

def isRecovery (x : UInt128) (i : Nat) (m : VsrMessage) : Bool :=
  m.header.command == .recovery && m.header.replica == i
    && (RecoveryRequestPayload.deserialize m.payload).map (·.nonce) == some x

def isRecoveryResponse (x : UInt128) (j : Nat) (m : VsrMessage) : Bool :=
  m.header.command == .recoveryResponse && m.header.replica == j
    && (RecoveryResponsePayload.deserialize m.payload {}).2.nonce == x

/-- A message none of the counts is about. -/
def Uncounted (m : VsrMessage) : Prop :=
  m.header.command ≠ .startViewChange ∧ m.header.command ≠ .doViewChange
    ∧ m.header.command ≠ .recovery ∧ m.header.command ≠ .recoveryResponse

section

variable {m : VsrMessage}

theorem Uncounted.startViewChange (h : Uncounted m) (w : Nat) :
    isStartViewChange w m = false := by
  simp [isStartViewChange, h.1]

theorem Uncounted.doViewChange (h : Uncounted m) (w s : Nat) : isDoViewChange w s m = false := by
  simp [isDoViewChange, h.2.1]

theorem Uncounted.recovery (h : Uncounted m) (x : UInt128) (i : Nat) :
    isRecovery x i m = false := by
  simp [isRecovery, h.2.2.1]

theorem Uncounted.recoveryResponse (h : Uncounted m) (x : UInt128) (j : Nat) :
    isRecoveryResponse x j m = false := by
  simp [isRecoveryResponse, h.2.2.2]

theorem uncounted_of_client (h : isClientMessage m = true) : Uncounted m := by
  rcases command_of_client h with hcmd | hcmd <;> simp [Uncounted, hcmd]

theorem uncounted_prepareOkMessage (s : ReplicaState) (op : Nat) :
    Uncounted (prepareOkMessage s op) := by
  simp [Uncounted, prepareOkMessage]

theorem deserialize_nonce (x : UInt128) (log : Log) :
    (RecoveryResponsePayload.deserialize
      (RecoveryResponsePayload.serialize { nonce := x, log }) {}).2.nonce = x := by
  simp [RecoveryResponsePayload.deserialize, RecoveryResponsePayload.serialize,
    readUInt128_write]

end

/-! ## Handling a message, for the books -/

def UncountedAll (effs : List Effect) : Prop :=
  ∀ eff ∈ effs, ∀ m, eff.message? = some m → Uncounted m

theorem UncountedAll.of_executed {s s' : ReplicaState} {effs : List Effect}
    (h : Executed s s' effs) : UncountedAll effs := by
  intro eff heff m hm
  cases h.effects eff heff with
  | executed n e res hn hlog => cases hm
  | reply conn e res =>
      cases hm
      simp [Uncounted, replyMessage]

theorem UncountedAll.cons {eff : Effect} {effs : List Effect}
    (h : ∀ m, eff.message? = some m → Uncounted m) (hs : UncountedAll effs) :
    UncountedAll (eff :: effs) := by
  intro e he m hm
  rcases List.mem_cons.mp he with rfl | he
  · exact h m hm
  · exact hs e he m hm

theorem UncountedAll.nil : UncountedAll [] := fun _ h => by cases h

/-- Tickets and votes a replica holds do not grow. -/
structure NoGain (s s' : ReplicaState) : Prop where
  changing : s'.status = .viewChange → s.status = .viewChange ∧ s'.view = s.view
    ∧ s'.startViewChangeReceived ⊆ s.startViewChangeReceived
  votes : s'.doViewChangeReceived = s.doViewChangeReceived ∨ s'.doViewChangeReceived = []
  responses : s'.recoveryResponses = s.recoveryResponses ∨ s'.recoveryResponses = []

inductive Tally (s : ReplicaState) (im : InboundMessage) (s' : ReplicaState)
    (effs : List Effect) : Prop where
  | nothing (hgain : NoGain s s') (heffs : UncountedAll effs)
  | join (hmsg : isStartViewChange s.view im.message = true) (hst : s.status = .viewChange)
      (hs' : s' = { s with
        startViewChangeReceived :=
          insert im.message.header.replica s.startViewChangeReceived })
      (heffs : effs = [])
  /-- The replica casts its own vote, and sends it or collects it. -/
  | vote (hmsg : isStartViewChange s.view im.message = true) (hst : s.status = .viewChange)
      (hquorum : s.faultToleranceF + 1
        ≤ (insert im.message.header.replica s.startViewChangeReceived).card)
      (hspent : s'.status = .viewChange → s'.view = s.view ∧ s'.startViewChangeReceived = ∅)
      (d : VsrMessage) (hcmd : d.header.command = .doViewChange) (hview : d.header.view = s.view)
      (hreplica : d.header.replica = u8 s.id)
      (hcast : (∃ p, effs = [.toPeer p d]) ∧ s'.doViewChangeReceived = s.doViewChangeReceived
        ∨ UncountedAll effs ∧ (s'.doViewChangeReceived = s.doViewChangeReceived ++ [d]
          ∨ s'.doViewChangeReceived = []))
      (hresponses : s'.recoveryResponses = s.recoveryResponses)
  | collect (hchanging : s'.status = .viewChange → s.status = .viewChange ∧ s'.view = s.view
        ∧ s'.startViewChangeReceived = s.startViewChangeReceived)
      (hvotes : s'.doViewChangeReceived = s.doViewChangeReceived ++ [im.message]
        ∨ s'.doViewChangeReceived = [])
      (hresponses : s'.recoveryResponses = s.recoveryResponses) (heffs : UncountedAll effs)
  | respond (x : UInt128) (hs' : s' = s)
      (hmsg : isRecovery x im.message.header.replica im.message = true)
      (heffs : effs = [.toPeer im.message.header.replica (recoveryResponseMessage s x)])
  | gather (hs' : s' = { s with recoveryResponses := s.recoveryResponses ++ [im.message] })
      (heffs : effs = [])

theorem NoGain.of_eq {s s' : ReplicaState} (hst : s'.status = s.status) (hview : s'.view = s.view)
    (hchanges : s'.startViewChangeReceived = s.startViewChangeReceived)
    (hvotes : s'.doViewChangeReceived = s.doViewChangeReceived)
    (hresponses : s'.recoveryResponses = s.recoveryResponses) : NoGain s s' where
  changing h := ⟨hst ▸ h, hview, hchanges.subset⟩
  votes := Or.inl hvotes
  responses := Or.inl hresponses

theorem NoGain.rfl' (s : ReplicaState) : NoGain s s := .of_eq rfl rfl rfl rfl rfl

theorem NoGain.of_executed {s s₁ s' : ReplicaState} {effs : List Effect}
    (hexec : Executed s₁ s' effs) (h : NoGain s s₁) : NoGain s s' := by
  obtain ⟨n, t, m, rfl⟩ := hexec.state
  exact ⟨h.changing, h.votes, h.responses⟩

theorem CollectsVote.tally {s s₁ : ReplicaState} {im : InboundMessage} {d : VsrMessage}
    (h : CollectsVote s im s₁ d) {s' : ReplicaState} {effs : List Effect}
    (hchanging : s'.status = .viewChange → s'.view = s₁.view
      ∧ s'.startViewChangeReceived = s₁.startViewChangeReceived)
    (hvotes : s'.doViewChangeReceived = s₁.doViewChangeReceived ++ [d]
      ∨ s'.doViewChangeReceived = [])
    (hresponses : s'.recoveryResponses = s.recoveryResponses) (heffs : UncountedAll effs) :
    Tally s im s' effs := by
  cases h with
  | received hcmd hview hst hprimary =>
      exact .collect (fun h => ⟨hst, hchanging h⟩) hvotes hresponses heffs
  | own hcmd hview hst hquorum hprimary =>
      exact .vote (by simp [isStartViewChange, hcmd, hview]) hst hquorum hchanging _ rfl rfl rfl
        (Or.inr ⟨heffs, hvotes⟩) hresponses

theorem Acts.tally {env : Env} {s s' : ReplicaState} {im : InboundMessage} {effs : List Effect}
    (h : Acts env s im s' effs) : Tally s im s' effs := by
  cases h with
  | ignore => exact .nothing (.rfl' s) .nil
  | pong msg hcmd hmsg =>
      refine .nothing (.rfl' s) (.cons ?_ .nil)
      intro m hm
      cases hm
      simp [Uncounted, hmsg]
  | old hcmd hst hprimary effs heffs =>
      refine .nothing (.of_eq rfl rfl rfl rfl rfl) ?_
      intro eff heff m hm
      obtain ⟨-, rfl⟩ := heffs eff heff
      cases hm
      simp [Uncounted, cachedReply]
  | propose hcmd hst hprimary hnew =>
      refine .nothing (.of_eq rfl rfl rfl rfl rfl) (.cons ?_ .nil)
      intro m hm
      cases hm
      simp [Uncounted, prepareMessage]
  | accept s' effs hcmd hst hprimary hview hop hexec =>
      refine .nothing (.of_executed hexec ?_) (.cons ?_ (.of_executed hexec))
      · exact .of_eq rfl rfl rfl rfl rfl
      · intro m hm
        cases hm
        exact uncounted_prepareOkMessage ..
  | acknowledge entry s' effs hcmd hst hprimary hview hentry hexec =>
      exact .nothing (.of_executed hexec (.of_eq rfl rfl rfl rfl rfl)) (.of_executed hexec)
  | learn s' effs hcmd hst hprimary hview hexec =>
      exact .nothing (.of_executed hexec (.of_eq rfl rfl rfl rfl rfl)) (.of_executed hexec)
  | join hcmd hview hst =>
      exact .join (by simp [isStartViewChange, hcmd, hview]) hst rfl rfl
  | vote p hcmd hview hst hquorum hp hne =>
      exact .vote (by simp [isStartViewChange, hcmd, hview]) hst hquorum (fun _ => ⟨rfl, rfl⟩)
        _ rfl rfl rfl (Or.inl ⟨⟨p, rfl⟩, rfl⟩) rfl
  | discard hcmd hview hst hquorum hp =>
      exact .nothing ⟨fun h => ⟨h, rfl, Finset.empty_subset _⟩, Or.inl rfl, Or.inl rfl⟩ .nil
  | collect s₁ d h =>
      refine h.tally (fun _ => ⟨rfl, rfl⟩) (Or.inl rfl) ?_ .nil
      cases h <;> rfl
  | startView s₁ d h hquorum best hbest s' effs hexec =>
      have heffs : UncountedAll (.broadcast (startViewMessage (startedState s₁ best)) :: effs) := by
        refine .cons ?_ (.of_executed hexec)
        intro m hm
        cases hm
        simp [Uncounted, startViewMessage]
      obtain ⟨n, t, m, rfl⟩ := hexec.state
      refine h.tally (fun hst => by simp [startedState] at hst) (Or.inr rfl) ?_ heffs
      cases h <;> rfl
  | adopt payload s' effs hcmd hview hst hprimary hpayload hexec =>
      refine .nothing (.of_executed hexec ⟨fun h => by simp [adoptedState] at h, Or.inl rfl,
        Or.inl rfl⟩) ?_
      intro eff heff m hm
      rcases List.mem_append.mp heff with heff | heff
      · exact UncountedAll.of_executed hexec eff heff m hm
      · obtain ⟨opNum, -, rfl⟩ := List.mem_map.mp heff
        cases hm
        exact uncounted_prepareOkMessage ..
  | respond request hcmd hst hrequest =>
      exact .respond request.nonce rfl (by simp [isRecovery, hcmd, hrequest]) rfl
  | gather payload hcmd hst hpayload hnonce => exact .gather rfl rfl
  | recover payload hcmd hst hpayload hnonce first rest hresponses hquorum s₁ effs hexec =>
      obtain ⟨n, t, m, rfl⟩ := hexec.state
      exact .nothing ⟨fun h => by simp [adoptResponse] at h, Or.inl rfl, Or.inr rfl⟩
        (.of_executed hexec)

end VsrKv
