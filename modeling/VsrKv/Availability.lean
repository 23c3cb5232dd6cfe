import VsrKv.Handling
import VsrKv.Ledger

/-!
# A primary and `f` backups are enough

What the cluster can do, where the other results are about what it never
does. As long as the primary and `f` backups or more are in step with
each other (`InStep`), a request that is new to the primary can be
executed and answered, and leaves them in step: whatever the other
replicas are doing, and whatever else is in flight. So any list of
requests is answered, in order, by the results of executing it one after
the other (`InStep.serves`).

One round is the primary's `Prepare`, the acknowledgements of `f`
backups, the answer, and the commit number that the next heartbeat
brings to the backups.
-/

namespace VsrKv

open Replica TransitionSystem

/-! ## Requests in a row -/

/-- Each is a new request of its client when its turn comes. -/
def AllNew : (UInt128 → Nat) → List (Nat × VsrMessage) → Prop
  | _, [] => True
  | last, (_, msg) :: reqs =>
      isClientMessage msg = true ∧ msg.header.command = .request
        ∧ last msg.header.client < msg.header.request
        ∧ AllNew (fun client =>
            if client = msg.header.client then msg.header.request else last client) reqs

/-- What the requests are answered, executed one after the other. -/
def answersTo (v : Nat) :
    StdMap Bytes Bytes → List (Nat × VsrMessage) → List (Connection × VsrMessage)
  | _, [] => []
  | m, (fd, msg) :: reqs =>
      (.client fd, answerTo v m (entryOf v msg ∅))
        :: answersTo v (applyOperation m (entryOf v msg ∅)).1 reqs

/-- The ledger with the requests put on it. -/
def Ledger.addAll (v : Nat) :
    (b : Ledger) → (reqs : List (Nat × VsrMessage)) → AllNew b.last reqs → Ledger
  | b, [], _ => b
  | b, (_, msg) :: reqs, hnew => (b.add v msg hnew.2.2.1).addAll v reqs hnew.2.2.2

theorem Ledger.length_addAll {v : Nat} {b : Ledger} {reqs : List (Nat × VsrMessage)}
    (hnew : AllNew b.last reqs) :
    (b.addAll v reqs hnew).entries.length = b.entries.length + reqs.length := by
  induction reqs generalizing b with
  | nil => rfl
  | cons req reqs ih =>
      have hlength : (b.add v req.2 hnew.2.2.1).entries.length = b.entries.length + 1 :=
        List.length_append
      refine (ih (b := b.add v req.2 hnew.2.2.1) hnew.2.2.2).trans ?_
      rw [hlength, List.length_cons]
      omega

/-- The map once the requests are executed, whatever the view. -/
def afterAll (m : StdMap Bytes Bytes) (reqs : List (Nat × VsrMessage)) : StdMap Bytes Bytes :=
  reqs.foldl (fun m req => (applyOperation m (entryOf 0 req.2 ∅)).1) m

theorem Ledger.machine_add {v : Nat} {b : Ledger} {msg : VsrMessage}
    (hnew : b.last msg.header.client < msg.header.request) :
    (b.add v msg hnew).machine = (applyOperation b.machine (entryOf v msg ∅)).1 :=
  applyAll_append _ _

theorem Ledger.machine_addAll {v : Nat} {b : Ledger} {reqs : List (Nat × VsrMessage)}
    (hnew : AllNew b.last reqs) : (b.addAll v reqs hnew).machine = afterAll b.machine reqs := by
  induction reqs generalizing b with
  | nil => rfl
  | cons req reqs ih =>
      refine (ih (b := b.add v req.2 hnew.2.2.1) hnew.2.2.2).trans ?_
      rw [machine_add]
      rfl

/-- Requests that follow others are new to whom has taken note of those. -/
theorem AllNew.of_append {v : Nat} {b : Ledger} {reqs reqs' : List (Nat × VsrMessage)}
    (h : AllNew b.last (reqs ++ reqs')) :
    ∃ hnew : AllNew b.last reqs, AllNew (b.addAll v reqs hnew).last reqs' := by
  induction reqs generalizing b with
  | nil => exact ⟨trivial, h⟩
  | cons req reqs ih =>
      obtain ⟨hmsg, hcmd, hlatest, hrest⟩ := h
      obtain ⟨hnew, hnew'⟩ := ih (b := b.add v req.2 hlatest) hrest
      exact ⟨⟨hmsg, hcmd, hlatest, hnew⟩, hnew'⟩

/-! ## What is on its way -/

/-- A replica's `Prepare` of `msg` after `k` other requests. -/
structure IsPrepare (v k : Nat) (msg m : VsrMessage) : Prop where
  command : m.header.command = .prepare
  view : m.header.view = v
  op : m.header.op = k + 1
  commit : m.header.commit = k
  entry : ∀ acks, entryOf v m acks = entryOf v msg acks

structure IsPrepareOk (v k j : Nat) (m : VsrMessage) : Prop where
  command : m.header.command = .prepareOk
  view : m.header.view = v
  op : m.header.op = k + 1
  replica : m.header.replica = j

structure IsCommit (v k : Nat) (m : VsrMessage) : Prop where
  command : m.header.command = .commit
  view : m.header.view = v
  commit : m.header.commit = k

theorem Pending.of_prepare {s : ReplicaState} {v k : Nat} {b : Ledger} {msg m : VsrMessage}
    {acks : Finset Nat} (h : Pending s v b m acks) (hm : IsPrepare v k msg m) :
    Pending s v b msg acks := by
  have hclient : m.header.client = msg.header.client := congrArg LogEntry.clientId (hm.entry ∅)
  have hrequest : m.header.request = msg.header.request :=
    congrArg LogEntry.requestNum (hm.entry ∅)
  exact ⟨h.status, h.view, hm.entry ∅ ▸ h.log, hm.entry acks ▸ h.entry, h.commit, h.executed,
    h.machine, hclient ▸ hrequest ▸ h.noted, hclient ▸ h.last⟩

theorem Node.isStale_of_view {s : ReplicaState} {m : VsrMessage} (h : m.header.view = s.view) :
    Node.isStale s m = false := by
  simp [Node.isStale, h]

namespace Cluster

variable {c c' : Cluster} {up : Finset Nat} {i j : Nat}

/-- A message of this kind is on its way from `i` to `j`. -/
def OnWay (c : Cluster) (i j : Nat) (Is : VsrMessage → Prop) : Prop :=
  ∃ m, Is m ∧ ⟨j, .peer i, m⟩ ∈ c.net

theorem OnWay.acted {taken : Option InboundMessage} {r : Replica} {k : Nat}
    {Is : VsrMessage → Prop} (h : OnWay c i k Is) (hacted : Acted c j taken r c') (hne : k ≠ j) :
    OnWay c' i k Is := by
  obtain ⟨m, hm, hmem⟩ := h
  exact ⟨m, hm, hacted.net_ne hmem hne⟩

/-- Taking a message of another sender leaves it on its way. -/
theorem OnWay.taken {r : Replica} {i' : Nat} {m' : VsrMessage} {Is : VsrMessage → Prop}
    (h : OnWay c i j Is) (hacted : Acted c j (some ⟨.peer i', m'⟩) r c') (hne : i ≠ i') :
    OnWay c' i j Is := by
  obtain ⟨m, hm, hmem⟩ := h
  refine ⟨m, hm, hacted.net _ hmem fun im him heq => hne ?_⟩
  obtain rfl := Option.some.inj him
  injection heq with _ hinbound
  injection hinbound with hconnection
  injection hconnection

/-! ## The replicas in step -/

/-- The primary `p` of view `v`, and backups, `f` of them or more. -/
structure Crew (f v p : Nat) (backups : Finset Nat) (c : Cluster) : Prop where
  static : c.Static
  bounded : c.Bounded
  pos : 0 < f
  small : 2 * f + 1 ≤ 2 ^ 8
  size : c.size = 2 * f + 1
  primary : p = v % c.size
  mem : ∀ j ∈ backups, j < c.size ∧ j ≠ p
  card : f ≤ backups.card

structure InStep (f v p : Nat) (backups : Finset Nat) (b : Ledger) (c : Cluster) : Prop where
  crew : Crew f v p backups c
  settled : ∀ i ∈ insert p backups, Idle (c.nodes i) ∧ Settled (c.state i) v b

/-- What does not change in the course of any run. -/
theorem steps_kept {ok : Cluster → Event → Cluster → Prop} (hstatic : c.Static)
    (hbounded : c.Bounded) (run : Steps step ok c c') :
    c'.Static ∧ c'.Bounded ∧ c'.size = c.size :=
  run.invariant (I := fun u => u.Static ∧ u.Bounded ∧ u.size = c.size) ⟨hstatic, hbounded, rfl⟩
    fun _ _ _ _ hstep _ h => by
      have hmoves := step_moves h.1 hstep
      exact ⟨static_step h.1 hstep, h.2.1.step hmoves, hmoves.size.trans h.2.2⟩

section

variable {f v p fd : Nat} {backups acks : Finset Nat} {b : Ledger} {msg : VsrMessage} (env : Env)

namespace Crew

theorem steps {ok : Cluster → Event → Cluster → Prop} (h : Crew f v p backups c)
    (run : Steps step ok c c') : Crew f v p backups c' := by
  obtain ⟨hstatic, hbounded, hsize⟩ := steps_kept h.static h.bounded run
  exact ⟨hstatic, hbounded, h.pos, h.small, hsize.trans h.size, hsize ▸ h.primary,
    hsize ▸ h.mem, h.card⟩

theorem lt (h : Crew f v p backups c) : p < c.size := by
  rw [h.primary]
  exact Nat.mod_lt _ (by rw [h.size]; omega)

theorem isPrimary (h : Crew f v p backups c) (hview : (c.state i).view = v) :
    (c.state i).isPrimary = decide (i = p) := by
  rw [h.static.isPrimary (by rw [h.size]; omega), hview, ← h.primary]

theorem getPrimaryIdForView (h : Crew f v p backups c) (i : Nat) :
    (c.state i).getPrimaryIdForView v = some p := by
  rw [h.static.getPrimaryIdForView (by rw [h.size]; omega), ← h.primary]

theorem faultToleranceF (h : Crew f v p backups c) (i : Nat) :
    (c.state i).faultToleranceF = f := by
  rw [h.static.f, h.size]
  omega

theorem u8_id (h : Crew f v p backups c) (hi : i < c.size) : u8 (c.state i).id = i := by
  rw [h.static.id, u8_eq]
  have hsmall := h.small
  rw [h.size] at hi
  omega

theorem mem_peers (h : Crew f v p backups c) (hj : j ∈ backups) : j ∈ peers (c.state p) :=
  h.static.mem_peers.mpr (h.mem j hj)

end Crew

/-! ## One round -/

/-- A backup logs the request and acknowledges it. -/
theorem Crew.logs (hcrew : Crew f v p backups c) (hk : b.entries.length + 1 < 2 ^ 64)
    (hj : j ∈ backups) (hidle : Idle (c.nodes j)) (hsettled : Settled (c.state j) v b)
    (hway : OnWay c p j (IsPrepare v b.entries.length msg)) :
    ∃ c' taken r, Steps step (Within env (insert p backups)) c c' ∧ Acted c j taken r c'
      ∧ Pending (c'.state j) v b msg ∅ ∧ OnWay c' j p (IsPrepareOk v b.entries.length j) := by
  obtain ⟨m, hm, hmem⟩ := hway
  obtain ⟨hlt, hne⟩ := hcrew.mem j hj
  have hbackup : (c.state j).isPrimary = false := by
    rw [hcrew.isPrimary hsettled.view, decide_eq_false hne]
  have hnext : (c.state j).op + 1 = b.entries.length + 1 := by rw [hsettled.holds.op]
  have hcan : (c.nodes j).replica.canProcess ⟨.peer p, m⟩ = true := by
    simp only [canProcess, hm.command]
    show checkCanProcessPrepare (c.state j) m = true
    simp [checkCanProcessPrepare, hsettled.status, hbackup, hsettled.view, hm.view, hm.op, hnext,
      u64_eq hk]
  obtain ⟨c', run, hacted⟩ := exists_delivered env hmem hlt (Finset.mem_insert_of_mem hj) hidle
    (Node.isStale_of_view (hm.view.trans hsettled.view.symm)) hcan
    (.of_normal hsettled.status (by simp [hm.command]) (by simp [hm.command]))
  simp only [Node.dispatch, hm.command] at hacted
  obtain ⟨hpending, hout⟩ := handlePrepare_logs hsettled hk
    (show (⟨.peer p, m⟩ : InboundMessage).message.header.commit = _ from hm.commit)
  refine ⟨c', _, _, run, hacted, ?_, prepareOkMessage (c.state j) ((c.state j).op + 1), ?_, ?_⟩
  · rw [hacted.state]
    exact hpending.of_prepare hm
  · exact ⟨rfl, hsettled.view, hnext, hcrew.u8_id hlt⟩
  · exact hacted.sent _ (by rw [hout]; exact List.mem_append_right _ (List.mem_singleton_self _)) _
      (List.mem_singleton_self _)

/-- So do all of them. -/
theorem Crew.exists_logged (hcrew : Crew f v p backups c)
    (hk : b.entries.length + 1 < 2 ^ 64)
    (hbackups : ∀ j ∈ backups, (Idle (c.nodes j) ∧ Settled (c.state j) v b)
      ∧ OnWay c p j (IsPrepare v b.entries.length msg)) :
    ∃ c', Steps step (Within env (insert p backups)) c c' ∧ c'.nodes p = c.nodes p
      ∧ replies c' p = replies c p
      ∧ ∀ j ∈ backups, (Idle (c'.nodes j) ∧ Pending (c'.state j) v b msg ∅)
        ∧ OnWay c' j p (IsPrepareOk v b.entries.length j) := by
  obtain ⟨c', run, ⟨-, hnode, hreplies⟩, hlogged⟩ := Steps.exists_forEach
    (I := fun u => Crew f v p backups u ∧ u.nodes p = c.nodes p ∧ replies u p = replies c p)
    (P := fun j u => (Idle (u.nodes j) ∧ Settled (u.state j) v b)
      ∧ OnWay u p j (IsPrepare v b.entries.length msg))
    (Q := fun j u => (Idle (u.nodes j) ∧ Pending (u.state j) v b msg ∅)
      ∧ OnWay u j p (IsPrepareOk v b.entries.length j))
    (Finset.nodup_toList backups)
    (fun j hj u ⟨hcrew, hnode, hreplies⟩ ⟨⟨hidle, hsettled⟩, hway⟩ => by
      have hj := Finset.mem_toList.mp hj
      have hne := (hcrew.mem j hj).2
      obtain ⟨u', _, _, run, hacted, hpending, hway'⟩ := hcrew.logs env hk hj hidle hsettled hway
      refine ⟨u', run, ⟨hcrew.steps run, (hacted.others p hne.symm).trans hnode,
        (hacted.replies_ne hne.symm).trans hreplies⟩, ⟨⟨hacted.idle hidle, hpending⟩, hway'⟩,
        fun i hij => ?_⟩
      rw [hacted.others i hij, hacted.state_ne hij]
      exact ⟨fun h => ⟨h.1, h.2.acted hacted hij⟩, fun h => ⟨h.1, h.2.acted hacted hne.symm⟩⟩)
    ⟨hcrew, rfl, rfl⟩ (fun j hj => hbackups j (Finset.mem_toList.mp hj))
  exact ⟨c', run, hnode, hreplies, fun j hj => hlogged j (Finset.mem_toList.mpr hj)⟩

/-- The acknowledgements reach the primary, the last of which makes a quorum. -/
theorem Crew.exists_answered (hcrew : Crew f v p backups c) (hk : b.entries.length + 1 < 2 ^ 64)
    (hnew : b.last msg.header.client < msg.header.request)
    (hidle : Idle (c.nodes p)) (hpending : Pending (c.state p) v b msg acks)
    (hconnection : (c.nodes p).replica.clientConnections[msg.header.client]? = some (.client fd))
    {todo : List Nat} (hnodup : todo.Nodup) (hne : todo ≠ []) (hfresh : ∀ j ∈ todo, j ∉ acks)
    (hcard : acks.card + todo.length = f + 1)
    (hway : ∀ j ∈ todo, OnWay c j p (IsPrepareOk v b.entries.length j)) :
    ∃ c', Steps step (Within env (insert p backups)) c c' ∧ (∀ i, i ≠ p → c'.nodes i = c.nodes i)
      ∧ (Idle (c'.nodes p) ∧ Settled (c'.state p) v (b.add v msg hnew))
      ∧ replies c' p
        = replies c p ++ [(.client fd, answerTo v b.machine (entryOf v msg ∅))] := by
  induction todo generalizing c acks with
  | nil => exact absurd rfl hne
  | cons j todo ih =>
      obtain ⟨⟨m, hm, hmem⟩, hway⟩ := List.forall_mem_cons.mp hway
      obtain ⟨hj, hfresh⟩ := List.forall_mem_cons.mp hfresh
      obtain ⟨hnot, hnodup⟩ := List.nodup_cons.mp hnodup
      have hprimary : (c.state p).isPrimary = true := by
        rw [hcrew.isPrimary hpending.view, decide_eq_true rfl]
      have hcan : (c.nodes p).replica.canProcess ⟨.peer j, m⟩ = true := by
        simp only [canProcess, hm.command]
        show checkCanProcessPrepareOk (c.state p) m = true
        simp [checkCanProcessPrepareOk, hpending.status, hprimary, hpending.view, hm.view]
      obtain ⟨c₁, run₁, hacted⟩ := exists_delivered env hmem hcrew.lt
        (Finset.mem_insert_self p backups) hidle
        (Node.isStale_of_view (hm.view.trans hpending.view.symm)) hcan
        (.of_normal hpending.status (by simp [hm.command]) (by simp [hm.command]))
      simp only [Node.dispatch, hm.command] at hacted
      have hop : m.header.op = (c.state p).op := by rw [hm.op, hpending.op]
      have hfault : (c.nodes p).replica.state.faultToleranceF = f := hcrew.faultToleranceF p
      have hmore : (insert m.header.replica acks).card = acks.card + 1 := by
        rw [hm.replica, Finset.card_insert_of_notMem hj]
      rw [List.length_cons] at hcard
      by_cases hlast : todo = []
      · rw [hlast, List.length_nil] at hcard
        obtain ⟨hsettled, n, e, res, hout⟩ := handlePrepareOk_last (r := (c.nodes p).replica)
          hpending hk hprimary hconnection hnew ⟨.peer j, m⟩ hop
          (by rw [hfault]; exact (hmore.trans (by omega)).ge)
        refine ⟨c₁, run₁, hacted.others, ⟨hacted.idle hidle, ?_⟩, ?_⟩
        · rw [hacted.state]
          exact hsettled
        · rw [hacted.replies_self, hout, List.filterMap_append, hidle.out]
          rfl
      · have hleft : 0 < todo.length := List.length_pos_iff.mpr hlast
        have hshort := handlePrepareOk_short (r := (c.nodes p).replica) hpending hk
          ⟨.peer j, m⟩ hop (by rw [hfault]; exact (hmore.trans_lt (by omega)))
        rw [hshort] at hacted
        simp only [hm.replica] at hacted
        have hpending₁ : Pending (c₁.state p) v b msg (insert j acks) := by
          rw [hacted.state]
          exact hpending.recordAck j
        obtain ⟨c₂, run₂, hothers, hsettled, hreplies⟩ := ih
          (hcrew.steps run₁) (hacted.idle hidle) hpending₁ (by rw [hacted.node]; exact hconnection)
          hnodup hlast
          (fun i hi => Finset.mem_insert.not.mpr (not_or.mpr ⟨fun heq => hnot (heq ▸ hi),
            hfresh i hi⟩))
          (by rw [Finset.card_insert_of_notMem hj]; omega)
          fun i hi => (hway i hi).taken hacted fun heq => hnot (heq ▸ hi)
        refine ⟨c₂, run₁.trans run₂, fun i hi => (hothers i hi).trans (hacted.others i hi),
          hsettled, ?_⟩
        rw [hreplies, hacted.replies_self]
        show replies c p ++ ((c.nodes p).replica.out).filterMap _ ++ _ = _
        rw [hidle.out, List.filterMap_nil, List.append_nil]

/-- A backup that hears of the commit executes the request. -/
theorem Crew.executes (hcrew : Crew f v p backups c)
    (hnew : b.last msg.header.client < msg.header.request) (hj : j ∈ backups)
    (hidle : Idle (c.nodes j)) (hpending : Pending (c.state j) v b msg ∅)
    (hway : OnWay c p j (IsCommit v (b.entries.length + 1))) :
    ∃ c' taken r, Steps step (Within env (insert p backups)) c c' ∧ Acted c j taken r c'
      ∧ Settled (c'.state j) v (b.add v msg hnew) := by
  obtain ⟨m, hm, hmem⟩ := hway
  obtain ⟨hlt, hne⟩ := hcrew.mem j hj
  have hbackup : (c.state j).isPrimary = false := by
    rw [hcrew.isPrimary hpending.view, decide_eq_false hne]
  have hcan : (c.nodes j).replica.canProcess ⟨.peer p, m⟩ = true := by
    simp only [canProcess, hm.command]
    show checkCanProcessCommit (c.state j) m = true
    simp [checkCanProcessCommit, hpending.status, hbackup, hpending.view, hm.view]
  obtain ⟨c', run, hacted⟩ := exists_delivered env hmem hlt (Finset.mem_insert_of_mem hj) hidle
    (Node.isStale_of_view (hm.view.trans hpending.view.symm)) hcan
    (.of_normal hpending.status (by simp [hm.command]) (by simp [hm.command]))
  simp only [Node.dispatch, hm.command] at hacted
  refine ⟨c', _, _, run, hacted, ?_⟩
  rw [hacted.state]
  exact handleCommit_settles hpending hnew hm.commit

/-- The next heartbeat tells the backups, which execute the request as well. -/
theorem Crew.exists_committed (hcrew : Crew f v p backups c)
    (hnew : b.last msg.header.client < msg.header.request)
    (hprimary : Idle (c.nodes p) ∧ Settled (c.state p) v (b.add v msg hnew))
    (hbackups : ∀ j ∈ backups, Idle (c.nodes j) ∧ Pending (c.state j) v b msg ∅) :
    ∃ c', Steps step (Within env (insert p backups)) c c'
      ∧ InStep f v p backups (b.add v msg hnew) c' ∧ replies c' p = replies c p := by
  obtain ⟨hidle, hsettled⟩ := hprimary
  obtain ⟨c₁, run₁, hacted⟩ := exists_heartbeat env hcrew.lt (Finset.mem_insert_self p backups)
    hidle
  have hfires : (c.nodes p).replica.sendCommitMessageIfNeeded
      = (c.nodes p).replica.broadcastToPeers (commitMessage (c.state p)) := by
    refine if_pos ?_
    show ((c.state p).isPrimary && (c.state p).status == .normal) = true
    rw [hcrew.isPrimary hsettled.view, hsettled.status, decide_eq_true rfl]
    rfl
  rw [hfires] at hacted
  have hout : ((c.nodes p).replica.broadcastToPeers (commitMessage (c.state p))).out
      = [.broadcast (commitMessage (c.state p))] := by
    rw [broadcastToPeers, emit, hidle.out, List.nil_append]
  have hlength : (b.add v msg hnew).entries.length = b.entries.length + 1 := List.length_append
  have hcommit : IsCommit v (b.entries.length + 1) (commitMessage (c.state p)) :=
    ⟨rfl, hsettled.view, (hsettled.holds.commit.trans hsettled.holds.op).trans hlength⟩
  have hway : ∀ j ∈ backups, OnWay c₁ p j (IsCommit v (b.entries.length + 1)) := fun j hj =>
    ⟨_, hcommit, hacted.sent_broadcast (by rw [hout]; exact List.mem_singleton_self _)
      (hcrew.mem_peers hj)⟩
  have hprimary₁ : Idle (c₁.nodes p) ∧ Settled (c₁.state p) v (b.add v msg hnew) := by
    rw [hacted.state]
    exact ⟨hacted.idle hidle, hsettled⟩
  have hbackups₁ : ∀ j ∈ backups, Idle (c₁.nodes j) ∧ Pending (c₁.state j) v b msg ∅ := by
    intro j hj
    have hne := (hcrew.mem j hj).2
    rw [hacted.others j hne, hacted.state_ne hne]
    exact hbackups j hj
  obtain ⟨c', run, ⟨hcrew', hnode, hreplies⟩, hdone⟩ := Steps.exists_forEach
    (I := fun u => Crew f v p backups u ∧ u.nodes p = c₁.nodes p ∧ replies u p = replies c₁ p)
    (P := fun j u => (Idle (u.nodes j) ∧ Pending (u.state j) v b msg ∅)
      ∧ OnWay u p j (IsCommit v (b.entries.length + 1)))
    (Q := fun j u => Idle (u.nodes j) ∧ Settled (u.state j) v (b.add v msg hnew))
    (Finset.nodup_toList backups)
    (fun j hj u hkept hready => by
      obtain ⟨hcrew, hnode, hreplies⟩ := hkept
      obtain ⟨⟨hidle, hpending⟩, hway⟩ := hready
      have hj := Finset.mem_toList.mp hj
      have hne := (hcrew.mem j hj).2
      obtain ⟨u', _, _, run, hacted, hsettled⟩ := hcrew.executes env hnew hj hidle hpending hway
      refine ⟨u', run, ⟨hcrew.steps run, (hacted.others p hne.symm).trans hnode,
        (hacted.replies_ne hne.symm).trans hreplies⟩, ⟨hacted.idle hidle, hsettled⟩,
        fun i hij => ?_⟩
      rw [hacted.others i hij, hacted.state_ne hij]
      exact ⟨fun h => ⟨h.1, h.2.acted hacted hij⟩, id⟩)
    ⟨hcrew.steps run₁, rfl, rfl⟩
    (fun j hj => ⟨hbackups₁ j (Finset.mem_toList.mp hj), hway j (Finset.mem_toList.mp hj)⟩)
  refine ⟨c', run₁.trans run, ⟨hcrew', fun i hi => ?_⟩, ?_⟩
  · rcases Finset.mem_insert.mp hi with rfl | hi
    · rw [Cluster.state, hnode]
      exact hprimary₁
    · exact hdone i (Finset.mem_toList.mpr hi)
  · rw [hreplies, hacted.replies_self, hout]
    exact List.append_nil _

/-- A new request is executed and answered. -/
theorem InStep.round (h : InStep f v p backups b c) (hk : b.entries.length + 1 < 2 ^ 64)
    (hmsg : isClientMessage msg = true) (hcmd : msg.header.command = .request)
    (hframe : msg.payload.length ≤ maxPayload)
    (hnew : b.last msg.header.client < msg.header.request) (fd : Nat) :
    ∃ c', Steps step (Within env (insert p backups)) c c'
      ∧ InStep f v p backups (b.add v msg hnew) c'
      ∧ replies c' p
        = replies c p ++ [(.client fd, answerTo v b.machine (entryOf v msg ∅))] := by
  obtain ⟨hidle, hsettled⟩ := h.settled p (Finset.mem_insert_self p backups)
  have hcan : (c.nodes p).replica.canProcess ⟨.client fd, msg⟩ = true := by
    simp only [canProcess, hcmd]
    show checkCanProcessRequest (c.state p) msg = true
    rw [checkCanProcessRequest, h.crew.isPrimary hsettled.view, hsettled.status,
      decide_eq_true rfl]
    rfl
  obtain ⟨c₁, run₁, hacted⟩ := exists_requested env h.crew.lt (Finset.mem_insert_self p backups)
    hidle hmsg (by simp [Node.isStale, hcmd]) hcan
    (.of_normal hsettled.status (by simp [hcmd]) fun _ => hframe)
  simp only [Node.dispatch, hcmd] at hacted
  obtain ⟨hpending, hconnection, hout⟩ := handleRequest_new (r := (c.nodes p).replica) hsettled hk
    hnew fd
  rw [hidle.out, List.nil_append] at hout
  have hid : (c.nodes p).replica.state.id = p := h.crew.static.id p
  rw [hid] at hpending
  have hreplies₁ : replies c₁ p = replies c p := by
    rw [hacted.replies_self, hout]
    exact List.append_nil _
  have hprepare : IsPrepare v b.entries.length msg
      (prepareMessage { (c.state p) with op := (c.state p).op + 1 } msg) := by
    refine ⟨rfl, hsettled.view, ?_, hsettled.holds.commit.trans hsettled.holds.op, fun _ => rfl⟩
    show (c.state p).op + 1 = _
    rw [hsettled.holds.op]
  have hcrew₁ := h.crew.steps run₁
  have hbackups : ∀ j ∈ backups, (Idle (c₁.nodes j) ∧ Settled (c₁.state j) v b)
      ∧ OnWay c₁ p j (IsPrepare v b.entries.length msg) := by
    intro j hj
    have hne := (h.crew.mem j hj).2
    rw [hacted.others j hne, hacted.state_ne hne]
    refine ⟨h.settled j (Finset.mem_insert_of_mem hj), _, hprepare,
      hacted.sent_broadcast (by rw [hout]; exact List.mem_singleton_self _) ?_⟩
    rw [← hacted.state]
    exact hcrew₁.mem_peers hj
  obtain ⟨c₂, run₂, hnode₂, hreplies₂, hlogged⟩ := hcrew₁.exists_logged env hk hbackups
  obtain ⟨chosen, hsub, hcard⟩ := Finset.exists_subset_card_eq h.crew.card
  have hnonempty : chosen.toList ≠ [] := by
    rw [← List.length_pos_iff, Finset.length_toList, hcard]
    exact h.crew.pos
  have hpending₂ : Pending (c₂.state p) v b msg {p} := by
    rw [Cluster.state, hnode₂, hacted.node]
    exact hpending
  obtain ⟨c₃, run₃, hothers₃, hprimary₃, hreplies₃⟩ := (hcrew₁.steps run₂).exists_answered env hk
    hnew (by rw [hnode₂]; exact hacted.idle hidle) hpending₂
    (by rw [hnode₂, hacted.node]; exact hconnection) (Finset.nodup_toList chosen) hnonempty
    (fun j hj => by
      rw [Finset.mem_singleton]
      exact (h.crew.mem j (hsub (Finset.mem_toList.mp hj))).2)
    (by rw [Finset.card_singleton, Finset.length_toList, hcard, Nat.add_comm])
    fun j hj => (hlogged j (hsub (Finset.mem_toList.mp hj))).2
  obtain ⟨c₄, run₄, hinStep, hreplies₄⟩ :=
    ((hcrew₁.steps run₂).steps run₃).exists_committed env hnew hprimary₃ fun j hj => by
      have hne := (h.crew.mem j hj).2
      rw [Cluster.state, hothers₃ j hne]
      exact (hlogged j hj).1
  refine ⟨c₄, ((run₁.trans run₂).trans run₃).trans run₄, hinStep, ?_⟩
  rw [hreplies₄, hreplies₃, hreplies₂, hreplies₁]

/-! ## Any number of requests -/

theorem InStep.serves (h : InStep f v p backups b c) (reqs : List (Nat × VsrMessage))
    (hroom : b.entries.length + reqs.length < 2 ^ 64)
    (hframes : ∀ req ∈ reqs, req.2.payload.length ≤ maxPayload) (hnew : AllNew b.last reqs) :
    ∃ c', Steps step (Within env (insert p backups)) c c'
      ∧ InStep f v p backups (b.addAll v reqs hnew) c'
      ∧ replies c' p = replies c p ++ answersTo v b.machine reqs := by
  induction reqs generalizing c b with
  | nil => exact ⟨c, .refl c, h, (List.append_nil _).symm⟩
  | cons req reqs ih =>
      obtain ⟨fd, msg⟩ := req
      obtain ⟨hframe, hframes⟩ := List.forall_mem_cons.mp hframes
      have hrest := hnew
      obtain ⟨hmsg, hcmd, hlatest, hnew'⟩ := hrest
      rw [List.length_cons] at hroom
      have hlength : (b.add v msg hlatest).entries.length = b.entries.length + 1 :=
        List.length_append
      obtain ⟨c₁, run₁, hinStep₁, hreplies₁⟩ := h.round env (by omega) hmsg hcmd hframe hlatest fd
      obtain ⟨c₂, run₂, hinStep₂, hreplies₂⟩ := ih hinStep₁ (by rw [hlength]; omega) hframes hnew'
      refine ⟨c₂, run₁.trans run₂, hinStep₂, ?_⟩
      rw [hreplies₂, hreplies₁, Ledger.machine_add, List.append_assoc]
      rfl

/-- The replicas as they start, whichever of the backups are up. -/
theorem inStep_init (hpos : 0 < f) (hsmall : 2 * f + 1 ≤ 2 ^ 8)
    (hmem : ∀ j ∈ backups, j < 2 * f + 1 ∧ j ≠ 0) (hcard : f ≤ backups.card) :
    InStep f 0 0 backups .empty (init (2 * f + 1)) where
  crew :=
    { static := static_init _
      bounded := bounded_init _
      pos := hpos
      small := hsmall
      size := rfl
      primary := (Nat.zero_mod _).symm
      mem := hmem
      card := hcard }
  settled i _ := by
    refine ⟨⟨rfl, rfl, rfl⟩, rfl, rfl, .empty, rfl, rfl, rfl, fun client => ?_⟩
    simp [lastRequest, ReplicaState.clientEntry, state, init, freshNode, ReplicaState.new,
      Ledger.empty]

end

end Cluster

end VsrKv
