import VsrKv.ClusterStep
import VsrKv.LogList
import VsrKv.Waiting

/-!
# What comes in time

A message of a view change or a recovery has a use as long as what the
replica holds, and what is queued ahead of it, does not yet make a
quorum; a `Prepare` as long as its op is ahead of the log that the
replica has, or gets from what is queued ahead. That is `InTime`, and it
can be read off the replica's state and its queue when the message
arrives.

A message that was in time when it came stays so while the queue is
served (`InTime.handled`): whatever is taken off the front of the queue
has been counted.
-/

namespace VsrKv

open Replica

/-- The message is a `command` for view `v`. -/
def VsrMessage.isFor (command : Command) (v : Nat) (m : VsrMessage) : Bool :=
  m.header.command == command && m.header.view == v

/-- How many of the queued messages are a `command` for view `v`. -/
def queued (command : Command) (v : Nat) (q : List InboundMessage) : Nat :=
  q.countP (·.message.isFor command v)

def ReplicaState.NormalIn (s : ReplicaState) (v : Nat) : Prop := s.status = .normal ∧ s.view = v

instance (s : ReplicaState) (v : Nat) : Decidable (s.NormalIn v) :=
  inferInstanceAs (Decidable (_ ∧ _))

/-- `can_process`, which looks at nothing but the state. -/
def admits (s : ReplicaState) (im : InboundMessage) : Bool :=
  ({ state := s } : Replica).canProcess im

/-- In normal operation in its view the replica does not get past the queued
messages. `n` bounds its op number by the time it comes to them: each
`Prepare` may be logged. -/
def blocked (s : ReplicaState) : Nat → List InboundMessage → Bool
  | _, [] => false
  | n, im :: q =>
      if im.message.isFor .prepare s.view && !s.isPrimary then
        decide (n + 1 < im.message.header.op) || blocked s (n + 1) q
      else (!Node.isStale s im.message && !admits s im) || blocked s n q

/-- The `DoViewChange` and the `StartViewChange` for view `v` that the replica
has. On entering the view it has its own of the latter. -/
def votesHeld (s : ReplicaState) (v : Nat) : Nat × Nat :=
  if s.status = .viewChange ∧ s.view = v then
    (s.doViewChangeReceived.length, s.startViewChangeReceived.card)
  else (0, 1)

/-- The `DoViewChange` for view `v` its primary has once it has taken the queued
messages. Every `f + 1` of `StartViewChange` bring one of its own. -/
def votesWith (s : ReplicaState) (v : Nat) (q : List InboundMessage) : Nat :=
  (votesHeld s v).1 + queued .doViewChange v q
    + ((votesHeld s v).2 + queued .startViewChange v q) / (s.faultToleranceF + 1)

/-- The responses a replica in recovery has once it has taken the queued messages. -/
def responsesWith (s : ReplicaState) (q : List InboundMessage) : List VsrMessage :=
  if s.status = .recovery then
    s.recoveryResponses
      ++ (q.map (·.message)).filter (·.header.command == .recoveryResponse)
  else []

/-- What is queued does not bring the replica to normal operation in view `v`. -/
structure Unfinished (s : ReplicaState) (v : Nat) (q : List InboundMessage) : Prop where
  votes : s.getPrimaryIdForView v = some s.id → votesWith s v q ≤ s.faultToleranceF
  start : ∀ im ∈ q, im.message.isFor .startView v = false
  responses : (responsesWith s q).length ≤ s.faultToleranceF
    ∨ ∀ m ∈ responsesWith s q, m.header.view ≠ v

/-- What is queued brings no log of view `v` with an entry at `op`. -/
structure Missing (s : ReplicaState) (v op : Nat) (q : List InboundMessage) : Prop where
  start : ∀ im ∈ q, im.message.isFor .startView v = true →
    im.message.header.op + queued .prepare v q < op
  responses : ∀ m ∈ responsesWith s q, m.header.view = v →
    m.header.op + queued .prepare v q < op

instance (s : ReplicaState) (v : Nat) (q : List InboundMessage) : Decidable (Unfinished s v q) :=
  decidable_of_iff ((_ → _) ∧ (∀ im ∈ q, _) ∧ (_ ∨ ∀ m ∈ responsesWith s q, _))
    ⟨fun ⟨h₁, h₂, h₃⟩ => ⟨h₁, h₂, h₃⟩, fun ⟨h₁, h₂, h₃⟩ => ⟨h₁, h₂, h₃⟩⟩

instance (s : ReplicaState) (v op : Nat) (q : List InboundMessage) : Decidable (Missing s v op q) :=
  decidable_of_iff ((∀ im ∈ q, _ → _) ∧ ∀ m ∈ responsesWith s q, _ → _)
    ⟨fun ⟨h₁, h₂⟩ => ⟨h₁, h₂⟩, fun ⟨h₁, h₂⟩ => ⟨h₁, h₂⟩⟩

/-- A message of a view change or a recovery. -/
def VsrMessage.ofChange (m : VsrMessage) : Bool :=
  match m.header.command with
  | .startViewChange | .doViewChange | .startView | .recoveryResponse => true
  | _ => false

/-- The replica, with `q` queued, still has a use for a message that arrives
now. One from a view that is over will be discarded. -/
def InTime (s : ReplicaState) (q : List InboundMessage) (m : VsrMessage) : Prop :=
  let h := m.header
  s.view ≤ h.view →
    (m.ofChange = true →
      if s.NormalIn h.view then blocked s s.op q = true else Unfinished s h.view q)
    ∧ (h.command = .prepare →
      if s.NormalIn h.view then blocked s s.op q = true ∨ s.op + queued .prepare h.view q < h.op
      else Missing s h.view h.op q)

instance (s : ReplicaState) (q : List InboundMessage) (m : VsrMessage) :
    Decidable (InTime s q m) :=
  inferInstanceAs (Decidable (_ → (_ → ite _ _ _) ∧ (_ → ite _ (_ ∨ _) _)))

/-! ## The primary of a view -/

theorem SameConfig.primaryIdForView {s s' : ReplicaState} (h : SameConfig s s') (v : Nat) :
    s'.getPrimaryIdForView v = s.getPrimaryIdForView v := by
  rw [ReplicaState.getPrimaryIdForView, h.config, ReplicaState.getPrimaryIdForView]

theorem SameConfig.isPrimary_eq {s s' : ReplicaState} (h : SameConfig s s')
    (hview : s'.view = s.view) : s'.isPrimary = s.isPrimary := by
  simp only [ReplicaState.isPrimary, ReplicaState.getPrimaryId, h.id, h.f, hview]

/-! ## Less queued -/

section

variable {s s' : ReplicaState} {im : InboundMessage} {q q' : List InboundMessage} {v n n' op : Nat}

theorem queued_cons (command : Command) (v : Nat) (im : InboundMessage) (q : List InboundMessage) :
    queued command v (im :: q) = queued command v q + (im.message.isFor command v).toNat := by
  rw [queued, List.countP_cons, queued]
  cases im.message.isFor command v <;> rfl

theorem responsesWith_cons (hst : s.status = .recovery)
    (hcmd : im.message.header.command = .recoveryResponse) :
    responsesWith s (im :: q)
      = s.recoveryResponses ++ [im.message]
        ++ (q.map (·.message)).filter (·.header.command == .recoveryResponse) := by
  simp [responsesWith, hst, hcmd]

theorem responsesWith_sublist (s : ReplicaState) (im : InboundMessage) (q : List InboundMessage) :
    (responsesWith s q).Sublist (responsesWith s (im :: q)) := by
  unfold responsesWith
  split
  · exact List.Sublist.append_left (((List.sublist_cons_self im q).map _).filter _) _
  · exact List.Sublist.refl _

theorem responsesWith_of_ne (hst : s.status ≠ .recovery) : responsesWith s q = [] := if_neg hst

theorem votesHeld_of_ne (h : ¬(s.status = .viewChange ∧ s.view = v)) : votesHeld s v = (0, 1) :=
  if_neg h

/-- What is in the way of normal operation in `v` is not so when less is queued. -/
theorem Unfinished.of_cons (h : Unfinished s v (im :: q)) : Unfinished s v q where
  votes hprimary := by
    refine Nat.le_trans ?_ (h.votes hprimary)
    simp only [votesWith, queued_cons]
    exact Nat.add_le_add (by omega) (Nat.div_le_div_right (by omega))
  start im' him := h.start im' (List.mem_cons_of_mem _ him)
  responses := by
    have hsub := responsesWith_sublist s im q
    exact h.responses.imp hsub.length_le.trans fun hall m hm => hall m (hsub.subset hm)

theorem Missing.of_cons (h : Missing s v op (im :: q)) : Missing s v op q where
  start im' him hstart := by
    have := h.start im' (List.mem_cons_of_mem _ him) hstart
    rw [queued_cons] at this
    omega
  responses m hm hv := by
    have := h.responses m ((responsesWith_sublist s im q).subset hm) hv
    rw [queued_cons] at this
    omega

/-- Both conditions are about the votes and the responses that the replica has. -/
theorem Unfinished.congr (h : Unfinished s v q) (hsame : SameConfig s s')
    (hvotes : votesHeld s' v = votesHeld s v)
    (hresponses : (responsesWith s' q).length ≤ s.faultToleranceF
      ∨ ∀ m ∈ responsesWith s' q, m.header.view ≠ v) : Unfinished s' v q where
  votes hprimary := by
    rw [hsame.primaryIdForView, hsame.id] at hprimary
    rw [votesWith, hvotes, hsame.f]
    exact h.votes hprimary
  start := h.start
  responses := by
    rw [hsame.f]
    exact hresponses

theorem Missing.congr (h : Missing s v op q) (hresponses : responsesWith s' q = responsesWith s q) :
    Missing s' v op q := ⟨h.start, hresponses ▸ h.responses⟩

end

/-! ## What a handler changes of it -/

/-- What handling `m` does to the status, the view and the op number of a replica,
and to the votes and responses it holds. -/
inductive Progress (s : ReplicaState) (m : VsrMessage) (s' : ReplicaState) : Prop where
  | stay (hst : s'.status = s.status) (hview : s'.view = s.view)
      (htickets : s'.startViewChangeReceived = s.startViewChangeReceived)
      (hvotes : s'.doViewChangeReceived = s.doViewChangeReceived)
      (hresponses : s'.recoveryResponses = s.recoveryResponses)
      (hop : s.isPrimary = false → s'.op ≤ s.op + (m.isFor .prepare s.view).toNat)
  | vote (hst : s.status = .viewChange) (hst' : s'.status = .viewChange) (hview : s'.view = s.view)
      (hvotes : s.getPrimaryIdForView s.view = some s.id → ∀ n,
        s'.doViewChangeReceived.length
            + (s'.startViewChangeReceived.card + n) / (s.faultToleranceF + 1)
          ≤ s.doViewChangeReceived.length + (m.isFor .doViewChange s.view).toNat
            + (s.startViewChangeReceived.card + (n + (m.isFor .startViewChange s.view).toNat))
              / (s.faultToleranceF + 1))
  | start (hst : s.status = .viewChange) (hst' : s'.status = .normal) (hview : s'.view = s.view)
      (hprimary : s.getPrimaryIdForView s.view = some s.id)
      (hquorum : s.faultToleranceF + 1
        ≤ s.doViewChangeReceived.length + (m.isFor .doViewChange s.view).toNat
          + (s.startViewChangeReceived.card + (m.isFor .startViewChange s.view).toNat)
            / (s.faultToleranceF + 1))
  | adopt (hst : s.status = .viewChange) (hst' : s'.status = .normal) (hview : s'.view = s.view)
      (hmsg : m.isFor .startView s.view = true) (hop : s'.op = m.header.op)
  | gather (hst : s.status = .recovery) (hst' : s'.status = .recovery) (hview : s'.view = s.view)
      (hcmd : m.header.command = .recoveryResponse)
      (hresponses : s'.recoveryResponses = s.recoveryResponses ++ [m])
  | recover (best : VsrMessage) (hst : s.status = .recovery) (hst' : s'.status = .normal)
      (hcmd : m.header.command = .recoveryResponse) (hbest : best ∈ s.recoveryResponses ++ [m])
      (hquorum : s.faultToleranceF + 1 ≤ (s.recoveryResponses ++ [m]).length)
      (hview : s'.view = best.header.view) (hop : s'.op = best.header.op)
      (hle : m.header.view ≤ best.header.view)

section

variable {env : Env} {s s' : ReplicaState} {im : InboundMessage} {effs : List Effect}

theorem u64_succ_le (n : Nat) : u64 (n + 1) ≤ n + 1 := Nat.mod_le _ _

theorem card_insert_div_le {f n r : Nat} {tickets : Finset Nat}
    (h : f + 1 ≤ (insert r tickets).card) :
    1 + n / (f + 1) ≤ (tickets.card + (n + 1)) / (f + 1) := by
  have hcard := Finset.card_insert_le r tickets
  rw [Nat.add_comm, ← Nat.add_div_right n (Nat.succ_pos f)]
  exact Nat.div_le_div_right (by omega)

theorem isFor_self {command : Command} {v : Nat} {m : VsrMessage}
    (hcmd : m.header.command = command) (hview : m.header.view = v) :
    m.isFor command v = true := by
  simp [VsrMessage.isFor, hcmd, hview]

theorem isFor_of_ne {command : Command} {v : Nat} {m : VsrMessage}
    (hcmd : m.header.command ≠ command) : m.isFor command v = false := by
  simp [VsrMessage.isFor, hcmd]

/-- Whichever way a vote is collected, it is worth what it was in the queue. -/
theorem CollectsVote.counted {s₁ : ReplicaState} {d : VsrMessage} (h : CollectsVote s im s₁ d)
    (n : Nat) :
    (s₁.doViewChangeReceived ++ [d]).length
        + (s₁.startViewChangeReceived.card + n) / (s.faultToleranceF + 1)
      ≤ s.doViewChangeReceived.length + (im.message.isFor .doViewChange s.view).toNat
        + (s.startViewChangeReceived.card + (n + (im.message.isFor .startViewChange s.view).toNat))
          / (s.faultToleranceF + 1) := by
  cases h with
  | received hcmd hview =>
      rw [isFor_self hcmd hview, isFor_of_ne (by simp [hcmd])]
      simp
  | own hcmd hview hst hquorum =>
      rw [isFor_self hcmd hview, isFor_of_ne (by simp [hcmd])]
      have := card_insert_div_le (n := n) hquorum
      simp only [List.length_append, List.length_singleton, Finset.card_empty, Bool.toNat_false,
        Bool.toNat_true]
      rw [Nat.zero_add]
      omega

theorem Progress.of_executed {m : VsrMessage} {s₁ : ReplicaState} (hexec : Executed s₁ s' effs)
    (h : Progress s m s₁) : Progress s m s' := by
  obtain ⟨_, _, _, rfl⟩ := hexec.state
  cases h with
  | stay hst hview htickets hvotes hresponses hop =>
      exact .stay hst hview htickets hvotes hresponses hop
  | vote hst hst' hview hvotes => exact .vote hst hst' hview hvotes
  | start hst hst' hview hprimary hquorum => exact .start hst hst' hview hprimary hquorum
  | adopt hst hst' hview hmsg hop => exact .adopt hst hst' hview hmsg hop
  | gather hst hst' hview hcmd hresponses => exact .gather hst hst' hview hcmd hresponses
  | recover best hst hst' hcmd hbest hquorum hview hop hle =>
      exact .recover best hst hst' hcmd hbest hquorum hview hop hle

theorem Acts.progress (h : Acts env s im s' effs) : Progress s im.message s' := by
  cases h with
  | ignore | pong | old | respond =>
      exact .stay rfl rfl rfl rfl rfl fun _ => Nat.le_add_right _ _
  | propose _ _ hprimary =>
      exact .stay rfl rfl rfl rfl rfl fun hbackup => by simp [hprimary] at hbackup
  | accept _ _ hcmd _ _ hview _ hexec =>
      refine .of_executed hexec (.stay rfl rfl rfl rfl rfl fun _ => ?_)
      rw [isFor_self hcmd hview]
      exact u64_succ_le s.op
  | acknowledge _ _ _ _ _ _ _ _ hexec =>
      exact .of_executed hexec (.stay rfl rfl rfl rfl rfl fun _ => Nat.le_add_right _ _)
  | learn _ _ _ _ _ _ hexec =>
      exact .of_executed hexec (.stay rfl rfl rfl rfl rfl fun _ => Nat.le_add_right _ _)
  | join hcmd hview hst =>
      refine .vote hst hst rfl fun _ n => ?_
      rw [isFor_self hcmd hview, isFor_of_ne (by simp [hcmd])]
      have hcard := Finset.card_insert_le im.message.header.replica s.startViewChangeReceived
      refine Nat.add_le_add_left (Nat.div_le_div_right ?_) _
      simp only [Bool.toNat_true]
      omega
  | vote p _ _ hst _ hp hne =>
      refine .vote hst hst rfl fun hprimary => absurd ?_ hne
      exact Option.some.inj (hp.symm.trans hprimary)
  | discard _ _ hst _ hp =>
      refine .vote hst hst rfl fun hprimary => ?_
      rw [hp] at hprimary
      cases hprimary
  | collect s₁ d hcollect =>
      refine .vote hcollect.status ?_ ?_ fun _ n => hcollect.counted n
      · cases hcollect with
        | received _ _ hst => exact hst
        | own _ _ hst => exact hst
      · cases hcollect <;> rfl
  | startView s₁ d hcollect hquorum best hbest _ _ hexec =>
      refine .of_executed hexec (.start hcollect.status rfl ?_ hcollect.primary ?_)
      · cases hcollect <;> rfl
      · have h := hcollect.counted 0
        rw [Nat.zero_add] at h
        exact hquorum.trans ((Nat.le_add_right _ _).trans h)
  | adopt payload _ _ hcmd hview hst hprimary hpayload hexec =>
      exact .of_executed hexec (.adopt hst rfl hview (isFor_self hcmd hview) rfl)
  | gather payload hcmd hst => exact .gather hst hst rfl hcmd rfl
  | recover payload hcmd hst hpayload hnonce first rest hlist hquorum s₁ _ hexec =>
      obtain ⟨_, _, _, rfl⟩ := hexec.state
      obtain ⟨hbest, hall⟩ := bestResponse_spec first rest
      refine .recover (rest.foldl betterResponse first) hst rfl hcmd (hlist ▸ hbest)
        (hlist ▸ hquorum) rfl rfl ?_
      have him : im.message ∈ first :: rest := hlist ▸ by simp
      rcases hall _ him with hlt | ⟨heq, -⟩
      · exact hlt.le
      · exact heq.le

end

/-! ## Staying blocked -/

section

variable {s s' : ReplicaState} {im : InboundMessage} {q : List InboundMessage} {n n' : Nat}

/-- Only a backup's op number matters, and the less it is the more is blocked. -/
theorem blocked_mono (h : s.isPrimary = false → n' ≤ n) (hblocked : blocked s n q = true) :
    blocked s n' q = true := by
  induction q generalizing n n' with
  | nil => cases hblocked
  | cons im q ih =>
      rw [blocked] at hblocked ⊢
      split
      · rename_i hprepare
        have hle := h (by simpa using (Bool.and_eq_true_iff.mp hprepare).2)
        rw [if_pos hprepare, Bool.or_eq_true, decide_eq_true_eq] at hblocked
        rw [Bool.or_eq_true, decide_eq_true_eq]
        exact hblocked.imp (by omega) (ih fun _ => by omega)
      · rename_i hprepare
        rw [if_neg hprepare, Bool.or_eq_true] at hblocked
        rw [Bool.or_eq_true]
        exact hblocked.imp_right (ih h)

/-- Apart from a `Prepare` at a backup, what is admitted does not depend on the op number. -/
theorem admits_congr (hsame : SameConfig s s') (hst : s'.status = s.status)
    (hview : s'.view = s.view)
    (hprepare : ¬(im.message.isFor .prepare s.view && !s.isPrimary) = true) :
    admits s' im = admits s im := by
  have hprimary := hsame.isPrimary_eq hview
  have hviewPrimary := hsame.primaryIdForView s.view
  unfold admits
  cases hcmd : im.message.header.command with
  | prepare =>
      simp only [VsrMessage.isFor, hcmd, beq_self_eq_true, Bool.true_and, Bool.and_eq_true,
        beq_iff_eq, Bool.not_eq_true'] at hprepare
      simp only [canProcess, hcmd, checkCanProcessPrepare, hst, hview, hprimary]
      by_cases hv : im.message.header.view = s.view
      · have hself : s.isPrimary = true := by simpa [hv] using hprepare
        simp [hself]
      · simp [beq_false_of_ne hv]
  | request => simp [canProcess, hcmd, checkCanProcessRequest, hst, hprimary]
  | prepareOk => simp [canProcess, hcmd, checkCanProcessPrepareOk, hst, hview, hprimary]
  | commit => simp [canProcess, hcmd, checkCanProcessCommit, hst, hview, hprimary]
  | startViewChange => simp [canProcess, hcmd, checkCanProcessStartViewChange, hst, hview]
  | doViewChange =>
      simp [canProcess, hcmd, checkCanProcessDoViewChange, hst, hview, hviewPrimary, hsame.id]
  | startView => simp [canProcess, hcmd, checkCanProcessStartView, hst, hview, hviewPrimary]
  | recovery => simp [canProcess, hcmd, checkCanProcessRecoveryRequest, hst]
  | recoveryResponse => simp [canProcess, hcmd, checkCanProcessRecoveryResponse, hst]
  | _ => simp [canProcess, hcmd]

theorem blocked_congr (hsame : SameConfig s s') (hst : s'.status = s.status)
    (hview : s'.view = s.view) : blocked s' n q = blocked s n q := by
  have hprimary := hsame.isPrimary_eq hview
  induction q generalizing n with
  | nil => rfl
  | cons im q ih =>
      rw [blocked, blocked, hview, hprimary]
      split
      · rw [ih]
      · rename_i hprepare
        rw [ih, admits_congr hsame hst hview hprepare, Node.isStale, Node.isStale, hview]

/-- Taking a message off the queue that can be processed does not unblock what is
behind it. -/
theorem blocked_tail (hblocked : blocked s s.op (im :: q) = true)
    (hstale : Node.isStale s im.message = false) (hcan : admits s im = true)
    (hop : s.isPrimary = false → n' ≤ s.op + (im.message.isFor .prepare s.view).toNat) :
    blocked s n' q = true := by
  rw [blocked] at hblocked
  split at hblocked
  · rename_i hprepare
    rw [Bool.and_eq_true, Bool.not_eq_true'] at hprepare
    obtain ⟨hfor, hbackup⟩ := hprepare
    rw [hfor] at hop
    rw [Bool.or_eq_true, decide_eq_true_eq] at hblocked
    refine blocked_mono (fun _ => hop hbackup) (hblocked.resolve_left ?_)
    -- a `Prepare` that leaves a gap is not processed
    have hcmd : im.message.header.command = .prepare := by
      simp only [VsrMessage.isFor, Bool.and_eq_true, beq_iff_eq] at hfor
      exact hfor.1
    have hnext : im.message.header.op = u64 (s.op + 1) := by
      simp only [admits, canProcess, hcmd, checkCanProcessPrepare, Bool.and_eq_true,
        beq_iff_eq] at hcan
      exact hcan.2
    rw [hnext, Nat.not_lt]
    exact u64_succ_le s.op
  · rename_i hprepare
    rw [hstale, hcan] at hblocked
    refine blocked_mono (fun hbackup => ?_) (by simpa using hblocked)
    have hnot : im.message.isFor .prepare s.view = false := by
      simpa [hbackup] using hprepare
    simpa [hnot] using hop hbackup

/-- Nor does discarding one that is stale. -/
theorem blocked_of_stale (hblocked : blocked s n (im :: q) = true)
    (hstale : Node.isStale s im.message = true) : blocked s n q = true := by
  have hview : im.message.header.view < s.view := by
    simp only [Node.isStale, Bool.and_eq_true, decide_eq_true_eq] at hstale
    exact hstale.2
  have hnot : im.message.isFor .prepare s.view = false := by
    simp [VsrMessage.isFor, hview.ne]
  rw [blocked, hnot, hstale] at hblocked
  simpa using hblocked

end

/-! ## What is in time stays in time -/

/-- The replica is not the primary of view `v`. -/
structure BackupIn (s : ReplicaState) (v : Nat) : Prop where
  primaryIdForView : s.getPrimaryIdForView v ≠ some s.id
  isPrimary : s.view = v → s.isPrimary = false

section

variable {env : Env} {s s' : ReplicaState} {im : InboundMessage} {q : List InboundMessage}
  {m : VsrMessage} {effs : List Effect} {v op : Nat}

theorem Progress.view_le (h : Progress s im.message s')
    (hstale : Node.isStale s im.message = false) : s.view ≤ s'.view := by
  cases h with
  | stay _ hview | vote _ _ hview | start _ _ hview | adopt _ _ hview | gather _ _ hview =>
      exact hview.ge
  | recover best _ _ hcmd _ _ hview _ hle =>
      have hcurrent : s.view ≤ im.message.header.view := by
        simpa [Node.isStale, hcmd] using hstale
      exact hview ▸ hcurrent.trans hle

theorem Unfinished.handled (h : Unfinished s v (im :: q)) (hsame : SameConfig s s')
    (hnot : ¬s.NormalIn v) (hprogress : Progress s im.message s') :
    ¬s'.NormalIn v ∧ Unfinished s' v q := by
  have hrest := h.of_cons
  have hnone : s'.status ≠ .recovery → (responsesWith s' q).length ≤ s.faultToleranceF
      ∨ ∀ m ∈ responsesWith s' q, m.header.view ≠ v := by
    intro hst'
    rw [responsesWith_of_ne hst']
    exact Or.inl (Nat.zero_le _)
  cases hprogress with
  | stay hst hview htickets hvotes hresponses hop =>
      refine ⟨by rwa [ReplicaState.NormalIn, hst, hview], hrest.congr hsame ?_ ?_⟩
      · rw [votesHeld, hst, hview, hvotes, htickets, votesHeld]
      · rw [responsesWith, hst, hresponses]
        exact hrest.responses
  | vote hst hst' hview hvotes =>
      refine ⟨by simp [ReplicaState.NormalIn, hst'], ?_⟩
      by_cases hv : s.view = v
      · refine ⟨fun hprimary => ?_, hrest.start, hsame.f ▸ hnone (by simp [hst'])⟩
        rw [hsame.primaryIdForView, hsame.id] at hprimary
        have hcount := hvotes (hv ▸ hprimary) (queued .startViewChange v q)
        have hle := h.votes hprimary
        simp only [votesWith, votesHeld, hst, hst', hview, hv, hsame.f, queued_cons,
          and_self, if_true] at hcount hle ⊢
        omega
      · refine hrest.congr hsame ?_ (hnone (by simp [hst']))
        rw [votesHeld_of_ne (by simp [hview, hv]), votesHeld_of_ne (by simp [hv])]
  | start hst hst' hview hprimary hquorum =>
      -- in view `v` the votes queued would have been enough
      have hv : s.view ≠ v := by
        rintro rfl
        have hle := h.votes hprimary
        simp only [votesWith, votesHeld, hst, queued_cons, and_self, if_true] at hle
        have hmore : (s.startViewChangeReceived.card
              + (im.message.isFor .startViewChange s.view).toNat) / (s.faultToleranceF + 1)
            ≤ (s.startViewChangeReceived.card + (queued .startViewChange s.view q
              + (im.message.isFor .startViewChange s.view).toNat)) / (s.faultToleranceF + 1) :=
          Nat.div_le_div_right (by omega)
        omega
      refine ⟨by simp [ReplicaState.NormalIn, hview, hv],
        hrest.congr hsame ?_ (hnone (by simp [hst']))⟩
      rw [votesHeld_of_ne (by simp [hview, hv]), votesHeld_of_ne (by simp [hv])]
  | adopt hst hst' hview hmsg hop =>
      have hv : s.view ≠ v := by
        rintro rfl
        rw [h.start im (List.mem_cons_self ..)] at hmsg
        cases hmsg
      refine ⟨by simp [ReplicaState.NormalIn, hview, hv],
        hrest.congr hsame ?_ (hnone (by simp [hst']))⟩
      rw [votesHeld_of_ne (by simp [hview, hv]), votesHeld_of_ne (by simp [hv])]
  | gather hst hst' hview hcmd hresponses =>
      have hall : responsesWith s' q = responsesWith s (im :: q) := by
        rw [responsesWith_cons hst hcmd, responsesWith, if_pos hst', hresponses]
      refine ⟨by simp [ReplicaState.NormalIn, hst'], hrest.congr hsame ?_ (hall ▸ h.responses)⟩
      rw [votesHeld_of_ne (by simp [hst']), votesHeld_of_ne (by simp [hst])]
  | recover best hst hst' hcmd hbest hquorum hview hop hle =>
      have hcons := responsesWith_cons (q := q) hst hcmd
      have hlen : s.faultToleranceF < (responsesWith s (im :: q)).length := by
        rw [hcons, List.length_append]
        omega
      have hv : best.header.view ≠ v :=
        h.responses.resolve_left (by omega) best (hcons ▸ List.mem_append_left _ hbest)
      refine ⟨by simp [ReplicaState.NormalIn, hview, hv],
        hrest.congr hsame ?_ (hnone (by simp [hst']))⟩
      rw [votesHeld_of_ne (by simp [hst']), votesHeld_of_ne (by simp [hst])]

/-- The replica has come to normal operation in `v` with too short a log, or not yet. -/
theorem Missing.handled (h : Missing s v op (im :: q))
    (hbackup : s.getPrimaryIdForView v ≠ some s.id) (hnot : ¬s.NormalIn v)
    (hprogress : Progress s im.message s') :
    if s'.NormalIn v then s'.op + queued .prepare v q < op else Missing s' v op q := by
  have hrest := h.of_cons
  have hnone : s.status ≠ .recovery → s'.status ≠ .recovery → Missing s' v op q := by
    intro hst hst'
    exact hrest.congr (by rw [responsesWith_of_ne hst', responsesWith_of_ne hst])
  cases hprogress with
  | stay hst hview _ _ hresponses =>
      rw [if_neg (by rwa [ReplicaState.NormalIn, hst, hview])]
      exact hrest.congr (by rw [responsesWith, hst, hresponses, responsesWith])
  | vote hst hst' =>
      rw [if_neg (by simp [ReplicaState.NormalIn, hst'])]
      exact hnone (by simp [hst]) (by simp [hst'])
  | start hst hst' hview hprimary =>
      have hv : s.view ≠ v := fun hv => hbackup (hv ▸ hprimary)
      rw [if_neg (by simp [ReplicaState.NormalIn, hview, hv])]
      exact hnone (by simp [hst]) (by simp [hst'])
  | adopt hst hst' hview hmsg hop =>
      split
      · rename_i hnormal
        rw [← hview, hnormal.2] at hmsg
        have hlt := h.start im (List.mem_cons_self ..) hmsg
        rw [queued_cons] at hlt
        omega
      · exact hnone (by simp [hst]) (by simp [hst'])
  | gather hst hst' hview hcmd hresponses =>
      rw [if_neg (by simp [ReplicaState.NormalIn, hst'])]
      refine ⟨hrest.start, fun m hm hv => ?_⟩
      have hall : responsesWith s' q = responsesWith s (im :: q) := by
        rw [responsesWith_cons hst hcmd, responsesWith, if_pos hst', hresponses]
      have hlt := h.responses m (hall ▸ hm) hv
      rw [queued_cons] at hlt
      omega
  | recover best hst hst' hcmd hbest hquorum hview hop hle =>
      split
      · rename_i hnormal
        have hmem : best ∈ responsesWith s (im :: q) :=
          responsesWith_cons hst hcmd ▸ List.mem_append_left _ hbest
        have hlt := h.responses best hmem (hview ▸ hnormal.2)
        rw [queued_cons] at hlt
        omega
      · refine ⟨hrest.start, fun m hm => ?_⟩
        rw [responsesWith_of_ne (by simp [hst'])] at hm
        cases hm

/-- Handling the message at the head keeps the others in time. -/
theorem InTime.handled (h : InTime s (im :: q) m) (hstale : Node.isStale s im.message = false)
    (hcan : admits s im = true) (hacts : Acts env s im s' effs)
    (hbackup : m.header.command = .prepare → BackupIn s m.header.view) : InTime s' q m := by
  have hprogress := hacts.progress
  have hsame := hacts.sameConfig
  intro hle
  obtain ⟨hchange, hprepare⟩ := h ((hprogress.view_le hstale).trans hle)
  -- in normal operation a handler leaves the view and the status alone
  have hnormal : ∀ {v : Nat}, s.NormalIn v → s'.NormalIn v
      ∧ (s.isPrimary = false → s'.op ≤ s.op + (im.message.isFor .prepare s.view).toNat)
      ∧ (blocked s s.op (im :: q) = true → blocked s' s'.op q = true) := by
    rintro v ⟨hst, hv⟩
    cases hprogress with
    | stay hst' hview _ _ _ hop =>
        refine ⟨⟨hst'.trans hst, hview.trans hv⟩, hop, fun hblocked => ?_⟩
        rw [blocked_congr hsame hst' hview]
        exact blocked_tail hblocked hstale hcan hop
    | _ => simp_all
  refine ⟨fun hof => ?_, fun hcmd => ?_⟩
  · have hchange := hchange hof
    split at hchange
    · rename_i hv
      rw [if_pos (hnormal hv).1]
      exact (hnormal hv).2.2 hchange
    · rename_i hv
      obtain ⟨hv', h'⟩ := Unfinished.handled hchange hsame hv hprogress
      rwa [if_neg hv']
  · have hprepare := hprepare hcmd
    have hbackup := hbackup hcmd
    split at hprepare
    · rename_i hv
      obtain ⟨hv', hop, hblocked⟩ := hnormal hv
      rw [if_pos hv']
      refine hprepare.imp hblocked fun hlt => ?_
      have hop := hop (hbackup.isPrimary hv.2)
      rw [queued_cons, ← hv.2] at hlt
      rw [← hv.2]
      omega
    · rename_i hv
      have h' := Missing.handled hprepare hbackup.primaryIdForView hv hprogress
      split at h'
      · rename_i hv'
        rw [if_pos hv']
        exact Or.inr h'
      · rename_i hv'
        rwa [if_neg hv']

/-- So does discarding a stale one. -/
theorem InTime.of_stale (h : InTime s (im :: q) m) (hstale : Node.isStale s im.message = true) :
    InTime s q m := by
  intro hle
  obtain ⟨hchange, hprepare⟩ := h hle
  refine ⟨fun hof => ?_, fun hcmd => ?_⟩
  · have hchange := hchange hof
    split at hchange
    · rename_i hv
      rw [if_pos hv]
      exact blocked_of_stale hchange hstale
    · rename_i hv
      rw [if_neg hv]
      exact Unfinished.of_cons hchange
  · have hprepare := hprepare hcmd
    split at hprepare
    · rename_i hv
      rw [if_pos hv]
      refine hprepare.imp (blocked_of_stale · hstale) fun hlt => ?_
      rw [queued_cons] at hlt
      omega
    · rename_i hv
      rw [if_neg hv]
      exact Missing.of_cons hprepare

/-- And so does joining the next view. -/
theorem InTime.enterNewView (h : InTime s q m) (hst : s.status = .normal)
    (hview : s.view + 1 < 2 ^ 32) : InTime (s.enterNewView (u32 (s.view + 1))) q m := by
  have hnext : u32 (s.view + 1) = s.view + 1 := Nat.mod_eq_of_lt hview
  have hsame : SameConfig s (s.enterNewView (u32 (s.view + 1))) := ⟨rfl, rfl, rfl⟩
  intro hle
  have hlt : s.view + 1 ≤ m.header.view := hnext ▸ hle
  have hnot : ¬s.NormalIn m.header.view := fun hv => by have := hv.2; omega
  have hnot' : ¬(s.enterNewView (u32 (s.view + 1))).NormalIn m.header.view := by
    simp [ReplicaState.NormalIn, ReplicaState.enterNewView]
  have hresponses : responsesWith (s.enterNewView (u32 (s.view + 1))) q = responsesWith s q := by
    rw [responsesWith_of_ne (by simp [ReplicaState.enterNewView]),
      responsesWith_of_ne (by simp [hst])]
  obtain ⟨hchange, hprepare⟩ := h (by omega)
  rw [if_neg hnot] at hchange hprepare
  rw [if_neg hnot', if_neg hnot']
  refine ⟨fun hof => (hchange hof).congr hsame ?_ (hresponses ▸ (hchange hof).responses),
    fun hcmd => (hprepare hcmd).congr hresponses⟩
  -- the replica has its own `StartViewChange`, and no votes
  rw [votesHeld_of_ne (s := s) (by simp [hst]), votesHeld]
  split <;> rfl

end

end VsrKv
