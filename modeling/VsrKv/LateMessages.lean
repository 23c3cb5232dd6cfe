import VsrKv.Agreement
import VsrKv.InTime
import VsrKv.Queues

/-!
# Messages that come too late

A view change is complete with a quorum, and the messages of the others
are still on their way; so are responses to a recovery that is over and a
`Prepare` for an entry that came with a log. In normal operation none of
them can be processed, none is stale before the next view, and
`process_message_queue` takes each for a message to wait for. At the
head of the queue such a message holds up everything behind it for the
rest of the view (`late_startViewChange_wedges`).

Only the environment can prevent it. Where every message arrives in time
(`ArrivesInTime`), all of them are in time in every queue at every moment:
the loop takes what is ahead of a message off the queue before it gets
there. So what it leaves at the head in normal operation is something to
wait for, and nothing that has expired (`heads_unexpired`).
-/

namespace VsrKv

open Replica TransitionSystem
open Event (process receive request)

/-- What has expired for a replica in normal operation in view `v` with `n`
entries. -/
def VsrMessage.expired (v n : Nat) (m : VsrMessage) : Bool :=
  m.header.view == v && match m.header.command with
    | .startViewChange | .doViewChange | .startView | .recoveryResponse => true
    | .prepare => decide (m.header.op ≤ n)
    | _ => false

/-- A message in time with nothing ahead of it has not expired. -/
theorem InTime.expired {s : ReplicaState} {m : VsrMessage} (h : InTime s [] m)
    (hst : s.status = .normal) : m.expired s.view s.op = false := by
  by_cases hview : m.header.view = s.view
  · have hnormal : s.NormalIn m.header.view := ⟨hst, hview.symm⟩
    obtain ⟨hchange, hprepare⟩ := h hview.ge
    simp only [if_pos hnormal, blocked, queued, List.countP_nil, Nat.add_zero,
      Bool.false_eq_true, false_or, imp_false, VsrMessage.ofChange] at hchange hprepare
    unfold VsrMessage.expired
    split
    · simp_all
    · simp_all
    · simp_all
    · simp_all
    · rename_i hcmd
      have := hprepare hcmd
      simp
      omega
    · exact Bool.and_false _
  · simp [VsrMessage.expired, hview]

/-- A server message that waits in normal operation is one of the current view. -/
theorem Replica.Waits.view_eq {r : Replica} {im : InboundMessage} (h : r.Waits im)
    (hst : r.state.status = .normal) (hrequest : im.message.header.command ≠ .request)
    (hrecovery : im.message.header.command ≠ .recovery) :
    im.message.header.view = r.state.view := by
  obtain ⟨hstale, -, haction⟩ := h
  have hge : r.state.view ≤ im.message.header.view := by
    simpa [Node.isStale, hrequest, hrecovery] using hstale
  refine le_antisymm (Nat.le_of_not_lt fun hlt => ?_) hge
  have haction := haction hst
  rw [determineStateAction, if_pos hlt] at haction
  split at haction <;> cases haction

/-- So it is not of a change unless it has expired. -/
theorem Replica.Waits.ofChange {r : Replica} {im : InboundMessage} (h : r.Waits im)
    (hst : r.state.status = .normal)
    (hexpired : im.message.expired r.state.view r.state.op = false) :
    im.message.ofChange = false := by
  cases hcmd : im.message.header.command with
  | startViewChange | doViewChange | startView | recoveryResponse =>
      have hview := h.view_eq hst (by simp [hcmd]) (by simp [hcmd])
      simp [VsrMessage.expired, hcmd, hview] at hexpired
  | _ => simp [VsrMessage.ofChange, hcmd]

/-- Nor is it a `Prepare` at a backup: that would leave a gap, and the replica recovers. -/
theorem Replica.Waits.not_prepare {r : Replica} {im : InboundMessage} (h : r.Waits im)
    (hst : r.state.status = .normal)
    (hexpired : im.message.expired r.state.view r.state.op = false)
    (hbackup : im.message.header.command = .prepare → BackupIn r.state im.message.header.view) :
    im.message.header.command ≠ .prepare := by
  intro hcmd
  have hview := h.view_eq hst (by simp [hcmd]) (by simp [hcmd])
  have hprimary := (hbackup hcmd).isPrimary hview.symm
  have hlt : r.state.op < im.message.header.op := by
    simpa [VsrMessage.expired, hcmd, hview] using hexpired
  have hnext : im.message.header.op ≠ u64 (r.state.op + 1) := by
    simpa [canProcess, hcmd, checkCanProcessPrepare, hst, hprimary, hview] using h.2.1
  have haction := h.2.2 hst
  have hle := u64_succ_le r.state.op
  rw [determineStateAction, if_neg (by omega), if_pos] at haction
  · cases haction
  · simp only [hprimary, hcmd, hview, Bool.not_false, beq_self_eq_true, Bool.and_self,
      Bool.true_and, decide_eq_true_eq]
    omega

namespace Cluster

variable {c c' : Cluster} {ev : Event}

/-! ## A primary gets no `Prepare` of its own view -/

def PreparesAway (c : Cluster) : Prop :=
  ∀ j, ∀ im ∈ c.pend j, im.message.header.command = .prepare →
    im.message.header.view % c.size ≠ j

theorem preparesAway_init (n : Nat) : PreparesAway (init n) := by
  intro j im him
  simp [pend, netFor, queue, init, freshNode] at him

/-- A replica that proposes is the primary, and sends to the others. -/
theorem PreparesAway.step (h : c.PreparesAway) (hstatic : c.Static)
    (hodd : c.size = 2 * ((c.size - 1) / 2) + 1) (hmoves : c.Moves ev c') : c'.PreparesAway := by
  intro j im him hcmd
  rw [hmoves.size]
  have hlocal : ∀ {i : Nat} {s' : ReplicaState} {q' : List InboundMessage} {effs : List Effect},
      Local c c' i s' q' effs → q' ⊆ c.queue i → peers s' = peers (c.state i) →
      (∀ eff ∈ effs, ∀ m, eff.message? = some m → m.header.command = .prepare →
        (c.state i).isPrimary = true ∧ eff = .broadcast m ∧ m.header.view = (c.state i).view) →
      im.message.header.view % c.size ≠ j := by
    intro i s' q' effs hlocal hsub hpeers hsends
    rcases hlocal.mem_pend hsub him with him | him
    · exact h j im him hcmd
    · obtain ⟨eff, heff, hm, hp⟩ := mem_mail him
      obtain ⟨hprimary, rfl, hview⟩ := hsends eff heff _ hm hcmd
      obtain ⟨k, hk, heq⟩ := List.mem_map.mp hp
      obtain rfl : k = j := congrArg Packet.dst heq
      rw [hpeers] at hk
      rw [hstatic.isPrimary hodd, decide_eq_true_eq] at hprimary
      rw [hview, ← hprimary]
      exact (hstatic.mem_peers.mp hk).2.symm
  have hother : ∀ {i : Nat} {s' : ReplicaState} {q' : List InboundMessage} {msg : VsrMessage},
      Local c c' i s' q' [.broadcast msg] → q' ⊆ c.queue i → peers s' = peers (c.state i) →
      msg.header.command ≠ .prepare → im.message.header.view % c.size ≠ j := by
    intro i s' q' msg hl hsub hpeers hne
    refine hlocal hl hsub hpeers fun eff heff m hm hprepare => ?_
    exact absurd hprepare
      (forall_message_singleton (P := (·.header.command ≠ .prepare)) rfl hne eff heff m hm)
  cases hmoves with
  | quiet _ _ _ hmem =>
      rcases hmem j im him with him | ⟨-, hclient⟩
      · exact h j im him hcmd
      · rcases command_of_client hclient with hother | hother <;> simp [hother] at hcmd
  | duplicate _ _ _ _ _ hmem => exact h j im (hmem j im him) hcmd
  | act i env hev im₀ rest s' effs hqueue hstale hacts hl =>
      refine hlocal hl (hqueue ▸ List.subset_cons_self _ _) hacts.sameConfig.peers_eq ?_
      intro eff heff m hm hprepare
      obtain ⟨-, hprimary, heq, rfl⟩ := hacts.prepare eff heff m hm hprepare
      exact ⟨hprimary, heq, rfl⟩
  | enterView i s' hst hs' hl =>
      exact hother hl (List.Subset.refl _) (by rw [hs']; rfl) (by simp [startViewChangeMessage])
  | enterRecovery i stuck rest nonce s' hst hqueue hcan haction hs' hl =>
      exact hother hl (List.nil_subset _) (by rw [hs']; rfl) (by simp [recoveryMessage])
  | heartbeat i hst hprimary hl =>
      exact hother hl (List.Subset.refl _) rfl (by simp [commitMessage])
  | restart i _ _ _ _ _ _ hpend =>
      rw [hpend] at him
      split at him
      · cases him
      · exact h j im him hcmd

theorem PreparesAway.backupIn (h : c.PreparesAway) (hstatic : c.Static)
    (hodd : c.size = 2 * ((c.size - 1) / 2) + 1) {j : Nat} {im : InboundMessage}
    (him : im ∈ c.queue j) (hcmd : im.message.header.command = .prepare) :
    BackupIn (c.state j) im.message.header.view := by
  have hne := h j im (List.mem_append_right _ him) hcmd
  refine ⟨?_, fun hview => ?_⟩
  · rw [hstatic.getPrimaryIdForView (by omega), hstatic.id]
    exact fun heq => hne (Option.some.inj heq)
  · rw [hstatic.isPrimary hodd, hview]
    exact decide_eq_false hne.symm

/-! ## Runs in which nothing comes late -/

/-- The message at the head of `i`'s queue has expired. -/
def HeadExpired (c : Cluster) (i : Nat) : Prop :=
  (c.state i).status = .normal
    ∧ ∃ im ∈ (c.queue i).head?, im.message.expired (c.state i).view (c.state i).op = true

instance (c : Cluster) (i : Nat) : Decidable (c.HeadExpired i) :=
  inferInstanceAs (Decidable (_ ∧ _))

/-- What arrives in this step is in time, and no view is about to wrap. -/
def ArrivesInTime (c : Cluster) (ev : Event) (_ : Cluster) : Prop :=
  (∀ x ∈ c.arriving? ev, InTime (c.state x.1) (c.queue x.1) x.2.message)
    ∧ ∀ i < c.size, (c.state i).view + 1 < 2 ^ 32

instance (c : Cluster) (ev : Event) (c' : Cluster) : Decidable (c.ArrivesInTime ev c') :=
  inferInstanceAs (Decidable (_ ∧ _))

/-- Every queued message is in time, given what is queued ahead of it. -/
def OnTime (c : Cluster) : Prop :=
  ∀ j < c.size, ∀ before im after, c.queue j = before ++ im :: after →
    InTime (c.state j) before im.message

theorem OnTime.step (h : c.OnTime) (hstatic : c.Static)
    (hodd : c.size = 2 * ((c.size - 1) / 2) + 1) (haway : c.PreparesAway)
    (hstep : c.step ev = some c') (hok : c.ArrivesInTime ev c') : c'.OnTime := by
  intro j hj before im after hqueue'
  rw [(step_moves hstatic hstep).size] at hj
  have hchange := queue_step hstep j
  rw [hqueue'] at hchange
  generalize hs' : c'.state j = s' at hchange ⊢
  generalize hq' : before ++ im :: after = q' at hchange
  cases hchange with
  | same => exact h j hj before im after hq'.symm
  | arrive new harrives =>
      -- the new message is last, and the others are where they were
      rcases List.eq_nil_or_concat after with rfl | ⟨after, last, rfl⟩
      · obtain ⟨rfl, heq⟩ := List.append_inj' hq' rfl
        obtain rfl : im = new := List.singleton_inj.mp heq
        exact hok.1 _ harrives
      · rw [List.concat_eq_append, ← List.cons_append, ← List.append_assoc] at hq'
        exact h j hj before im after (List.append_inj' hq' rfl).1.symm
  | discard head _ hqueue hstale =>
      exact (h j hj (head :: before) im after (by rw [hqueue, ← hq']; rfl)).of_stale hstale
  | handle env head _ hqueue hstale hcan =>
      have hmem : im ∈ c.queue j := by rw [hqueue, ← hq']; simp
      exact (h j hj (head :: before) im after (by rw [hqueue, ← hq']; rfl)).handled hstale hcan
        (dispatch_acts (hstatic.out j) hcan) (haway.backupIn hstatic hodd hmem)
  | enterView hst =>
      exact (h j hj before im after hq'.symm).enterNewView hst (hok.2 j hj)
  | clear => simp at hq'

theorem onTime_run {f : Nat} (run : Run ArrivesInTime (init (2 * f + 1)) c) :
    c.PreparesAway ∧ c.OnTime := by
  refine run.invariant (I := fun c => c.PreparesAway ∧ c.OnTime)
    ⟨preparesAway_init _, fun _ _ _ _ _ hqueue => by simp [queue, init, freshNode] at hqueue⟩ ?_
  intro u ev v run hstep hok h
  have hstatic := static_run run
  have hodd : u.size = 2 * ((u.size - 1) / 2) + 1 := by rw [size_run run]; omega
  exact ⟨h.1.step hstatic hodd (step_moves hstatic hstep), h.2.step hstatic hodd h.1 hstep hok⟩

theorem waits_of_returned {i : Nat} {env : Env} (hstep : c.step (.tick i env) = some c')
    (hpass : (c'.nodes i).pass = none) (hst : (c'.state i).status = .normal) :
    ∀ im ∈ (c'.queue i).head?, (c'.nodes i).replica.Waits im := by
  simp only [step, Option.ite_none_right_eq_some, Option.some.injEq] at hstep
  obtain ⟨⟨-, hrunning⟩, rfl⟩ := hstep
  obtain ⟨b, hb⟩ := Option.ne_none_iff_exists'.mp hrunning
  have hnode : (c.put i ((c.nodes i).tick env)).nodes i
      = { (c.nodes i).tick env with
          replica := { ((c.nodes i).tick env).replica with out := [] } } := by
    simp [put]
  rw [hnode] at hpass ⊢
  rw [state_put, if_pos rfl] at hst
  rw [queue_put, if_pos rfl]
  exact Node.waits_of_returned hb hpass hst

end Cluster

/-- As long as nothing comes late, whenever `process_message_queue` returns in normal
operation the message it leaves at the head has not expired, and is one to wait for: no
message of a view change or a recovery, of whatever view, and no `Prepare`. -/
theorem heads_unexpired {f i : Nat} {env : Env} {c c' : Cluster}
    (run : Cluster.Run Cluster.ArrivesInTime (Cluster.init (2 * f + 1)) c)
    (hstep : c.step (.tick i env) = some c') (hok : c.ArrivesInTime (.tick i env) c')
    (hpass : (c'.nodes i).pass = none) (hst : (c'.state i).status = .normal) :
    ∀ im ∈ (c'.queue i).head?,
      im.message.expired (c'.state i).view (c'.state i).op = false
        ∧ (c'.nodes i).replica.Waits im
        ∧ im.message.ofChange = false ∧ im.message.header.command ≠ .prepare := by
  intro im him
  have run' := Steps.tail run hstep hok
  have hstatic := Cluster.static_run run'
  have hsize := Cluster.size_run run'
  obtain ⟨haway, hontime⟩ := Cluster.onTime_run run'
  have hi : i < c'.size := by
    rw [(Cluster.step_moves (Cluster.static_run run) hstep).size]
    simp only [Cluster.step, Option.ite_none_right_eq_some] at hstep
    exact hstep.1.1
  obtain ⟨rest, hqueue⟩ := List.head?_eq_some_iff.mp him
  have hexpired := InTime.expired (hontime i hi [] im rest hqueue) hst
  have hwaits := Cluster.waits_of_returned hstep hpass hst im him
  refine ⟨hexpired, hwaits, hwaits.ofChange hst hexpired, hwaits.not_prepare hst hexpired ?_⟩
  exact haway.backupIn hstatic (by omega) (hqueue ▸ List.mem_cons_self ..)

/-- A change to view 1 in which replica 0 takes no part; what replica 2 sends to the new
primary arrives before that runs its queue. -/
def changedInTime : List Event :=
  [.timeout 1, .timeout 2] ++ receive 1 2 ++ [.deliver 2, .deliver 2] ++ process 1 4
    ++ receive 3 2

/-- After it a client's request to replica 2 waits, and nothing else does. -/
theorem heads_unexpired_in_view_one :
    ∃ c c', Cluster.Run Cluster.ArrivesInTime (Cluster.init (2 * 1 + 1)) c
      ∧ c.step (.tick 2 {}) = some c' ∧ (c'.nodes 2).pass = none
      ∧ ((c'.state 2).status = .normal ∧ (c'.state 2).view = 1 ∧ (c'.queue 2).length = 1)
      ∧ ∀ im ∈ (c'.queue 2).head?,
          im.message.expired (c'.state 2).view (c'.state 2).op = false
            ∧ (c'.nodes 2).replica.Waits im
            ∧ im.message.ofChange = false ∧ im.message.header.command ≠ .prepare := by
  obtain ⟨c, run, c', hstep, hok, hpass, hst, hview, hlength⟩ := exists_of_replay Cluster.step
    Cluster.ArrivesInTime (Cluster.init (2 * 1 + 1))
    (changedInTime ++ [.client 2 7 (setRequest 1 1 [97, 32, 98]), .start 2])
    (P := fun c => ∃ c' ∈ c.step (.tick 2 {}), c.ArrivesInTime (.tick 2 {}) c'
      ∧ (c'.nodes 2).pass = none ∧ (c'.state 2).status = .normal ∧ (c'.state 2).view = 1
      ∧ (c'.queue 2).length = 1) (by decide +kernel)
  exact ⟨c, c', run, hstep, hpass, ⟨hst, hview, hlength⟩,
    heads_unexpired run hstep hok hpass hst⟩

/-- A change to view 1 in which replica 0 takes no part. -/
def changedView : List Event :=
  [.timeout 1, .timeout 2] ++ receive 3 1 ++ receive 1 2 ++ receive 2 1

/-- Replica 0 joins the change when it is over; its `StartViewChange` stays at
the head of replica 1's queue. -/
theorem late_startViewChange_wedges :
    ∃ c c', Cluster.Run Cluster.NoRestarts (Cluster.init (2 * 1 + 1)) c
      ∧ c.step (.tick 1 {}) = some c' ∧ c.NoRestarts (.tick 1 {}) c'
      ∧ (c'.nodes 1).pass = none ∧ c'.HeadExpired 1 := by
  obtain ⟨c, run, c', hstep, h⟩ := exists_of_replay Cluster.step Cluster.NoRestarts
    (Cluster.init (2 * 1 + 1))
    (changedView ++ [.deliver 0] ++ process 0 1 ++ [.deliver 3, .start 1])
    (P := fun c => ∃ c' ∈ c.step (.tick 1 {}), c.NoRestarts (.tick 1 {}) c'
      ∧ (c'.nodes 1).pass = none ∧ c'.HeadExpired 1) (by decide +kernel)
  exact ⟨c, c', run, hstep, h⟩

end VsrKv
