import VsrKv.Availability
import VsrKv.NewView

/-!
# The cluster outlives its primaries

When the primary is gone, and the replicas in step with it are enough
for a quorum without it, they can change to the next view and serve on
from where it stopped (`Crew.fails_over`). So a cluster that starts with
all replicas in step may lose its first `f` primaries, one after the
other, or fewer and some backups instead, and what clients are told is
what one replica that never fails would have told them
(`serves_through_crashes`).

What has to fit is the log, up to the last change of views: it goes out
in one message. What has to be true of the next primary is that it has
not failed as well; there is no view change out of a view change.
-/

namespace VsrKv

open Replica TransitionSystem

namespace Cluster

variable {c c' c'' : Cluster} {i j : Nat} {f v q : Nat} {others wanted : Finset Nat}
  {b : Ledger} {votes : List VsrMessage} {senders todo : List Nat} (env : Env)

/-! ## A replica takes what it was sent -/

/-- Replica `j` has acted, and has taken off the network at most what `senders` sent it. -/
structure Took (c : Cluster) (j : Nat) (senders : List Nat) (c' : Cluster) : Prop where
  others : ∀ i, i ≠ j → c'.nodes i = c.nodes i
  replies : ∀ i, i ≠ j → replies c' i = replies c i
  way : ∀ i k Is, (k = j → i ∉ senders) → OnWay c i k Is → OnWay c' i k Is

namespace Took

theorem refl (c : Cluster) (j : Nat) (senders : List Nat) : Took c j senders c :=
  ⟨fun _ _ => rfl, fun _ _ => rfl, fun _ _ _ _ h => h⟩

theorem trans (h : Took c j senders c') (h' : Took c' j senders c'') : Took c j senders c'' where
  others i hi := (h'.others i hi).trans (h.others i hi)
  replies i hi := (h'.replies i hi).trans (h.replies i hi)
  way i k Is hne hway := h'.way i k Is hne (h.way i k Is hne hway)

theorem mono (h : Took c j todo c') (hsub : ∀ i ∈ todo, i ∈ senders) : Took c j senders c' where
  others := h.others
  replies := h.replies
  way i k Is hne := h.way i k Is fun hk hi => hne hk (hsub i hi)

theorem state (h : Took c j senders c') (hij : i ≠ j) : c'.state i = c.state i := by
  rw [Cluster.state, h.others i hij]
  rfl

end Took

theorem Acted.took {r : Replica} {m : VsrMessage} (h : Acted c j (some ⟨.peer i, m⟩) r c') :
    Took c j [i] c' where
  others := h.others
  replies _ hk := h.replies_ne hk
  way i' k Is hne hway := by
    by_cases hk : k = j
    · subst hk
      exact hway.taken h fun heq => hne rfl (List.mem_singleton.mpr heq)
    · exact hway.acted h hk

/-! ## Leaving the view -/

section

variable (hcrew : Crew f (v + 1) q others c)

include hcrew

/-- A backup of a primary that is gone times out. -/
theorem Crew.times_out (hi : i ∈ insert q others) (hlt : i < c.size) (hv : v + 1 < 2 ^ 32)
    (hidle : Idle (c.nodes i)) (hsettled : Settled (c.state i) v b) (hbackup : i ≠ v % c.size) :
    ∃ c' r, Steps step (Within env (insert q others)) c c' ∧ Acted c i none r c'
      ∧ replies c' i = replies c i ∧ Changing (c'.state i) v b {i} []
      ∧ ∀ j ∈ insert q others, j ≠ i → OnWay c' i j (IsStartViewChange v i) := by
  obtain ⟨c', run, hacted⟩ := exists_timeout env hlt hi hidle
  have hprimary : (c.state i).isPrimary = false := by
    rw [hcrew.static.isPrimary (by rw [hcrew.size]; omega), hsettled.view,
      decide_eq_false hbackup]
  obtain ⟨hchanging, hout⟩ := checkPrimaryLiveness_changes (r := (c.nodes i).replica) hsettled
    hprimary hv
  have hid : (c.nodes i).replica.state.id = i := hcrew.static.id i
  rw [hid] at hchanging
  have hcrew' := hcrew.steps run
  refine ⟨c', _, run, hacted, ?_, by rw [hacted.state]; exact hchanging, fun j hj hne => ?_⟩
  · rw [hacted.replies_self, hout, hidle.out]
    exact List.append_nil _
  · have hjlt : j < c'.size := by
      rw [hcrew'.size, ← hcrew.size]
      rcases Finset.mem_insert.mp hj with rfl | hj
      · exact hcrew.lt
      · exact (hcrew.mem j hj).1
    have hpeer : j ∈ peers (c'.state i) := hcrew'.static.mem_peers.mpr ⟨hjlt, hne⟩
    refine ⟨_, ⟨rfl, hchanging.view, ?_⟩, hacted.sent_broadcast (by
      rw [hout]; exact List.mem_append_right _ (List.mem_singleton_self _))
      (by rw [← hacted.state]; exact hpeer)⟩
    show u8 (c.nodes i).replica.checkPrimaryLiveness.state.id = i
    rw [← hacted.state]
    exact hcrew'.u8_id (by rw [hcrew'.size, ← hcrew.size]; exact hlt)

/-- So do all of them, and everyone hears of everyone. -/
theorem Crew.exists_timed_out (hv : v + 1 < 2 ^ 32)
    (hsettled : ∀ i ∈ insert q others,
      (Idle (c.nodes i) ∧ Settled (c.state i) v b) ∧ i ≠ v % c.size) :
    ∃ c', Steps step (Within env (insert q others)) c c' ∧ replies c' q = replies c q
      ∧ ∀ i ∈ insert q others, (Idle (c'.nodes i) ∧ Changing (c'.state i) v b {i} [])
        ∧ ∀ j ∈ insert q others, j ≠ i → OnWay c' i j (IsStartViewChange v i) := by
  obtain ⟨c', run, ⟨-, hreplies⟩, hchanging⟩ := Steps.exists_forEach
    (I := fun u => Crew f (v + 1) q others u ∧ replies u q = replies c q)
    (P := fun i u => (Idle (u.nodes i) ∧ Settled (u.state i) v b) ∧ i ≠ v % (2 * f + 1))
    (Q := fun i u => (Idle (u.nodes i) ∧ Changing (u.state i) v b {i} [])
      ∧ ∀ j ∈ insert q others, j ≠ i → OnWay u i j (IsStartViewChange v i))
    (Finset.nodup_toList (insert q others))
    (fun i hi u ⟨hcrew, hreplies⟩ ⟨⟨hidle, hsettled⟩, hbackup⟩ => by
      have hi := Finset.mem_toList.mp hi
      have hlt : i < u.size := by
        rcases Finset.mem_insert.mp hi with rfl | hi
        · exact hcrew.lt
        · exact (hcrew.mem i hi).1
      obtain ⟨u', r, run, hacted, hreplies', hchanging, hway⟩ := hcrew.times_out env hi hlt hv hidle
        hsettled (by rw [hcrew.size]; exact hbackup)
      refine ⟨u', run, ⟨hcrew.steps run, ?_⟩, ⟨⟨hacted.idle hidle, hchanging⟩, hway⟩,
        fun k hki => ?_⟩
      · rw [← hreplies]
        by_cases hq : q = i
        · subst hq
          exact hreplies'
        · exact hacted.replies_ne hq
      · rw [hacted.others k hki, hacted.state_ne hki]
        refine ⟨id, fun h => ⟨h.1, fun j hj hne => ?_⟩⟩
        obtain ⟨m, hm, hmem⟩ := h.2 j hj hne
        exact ⟨m, hm, hacted.net _ hmem (by simp)⟩)
    ⟨hcrew, rfl⟩
    (fun i hi => by rw [← hcrew.size]; exact hsettled i (Finset.mem_toList.mp hi))
  exact ⟨c', run, hreplies, fun i hi => hchanging i (Finset.mem_toList.mpr hi)⟩

/-! ## Voting for the next -/

/-- A replica takes a message that it is wanted to change views. -/
theorem Crew.exists_told (hj : j ∈ insert q others) (hidle : Idle (c.nodes j))
    (h : Changing (c.state j) v b wanted []) (hsize : 12 + b.bytes ≤ maxPayload)
    {m : VsrMessage} (hm : IsStartViewChange v i m) (hmem : ⟨j, .peer i, m⟩ ∈ c.net) :
    ∃ c', Steps step (Within env (insert q others)) c c' ∧ Acted c j (some ⟨.peer i, m⟩)
      ((c.nodes j).replica.handleStartViewChange env ⟨.peer i, m⟩) c' := by
  have hlt : j < c.size := by
    rcases Finset.mem_insert.mp hj with rfl | hj
    · exact hcrew.lt
    · exact (hcrew.mem j hj).1
  have hcan : (c.nodes j).replica.canProcess ⟨.peer i, m⟩ = true := by
    simp only [canProcess, hm.command]
    show checkCanProcessStartViewChange (c.state j) m = true
    simp [checkCanProcessStartViewChange, h.status, h.view, hm.view]
  have hfits : FitsFrame env.uninitialized (c.state j) m :=
    fitsFrame_of_no_votes h (by rw [hcrew.faultToleranceF]; exact hcrew.pos)
      (by simp [hm.command]) hsize
  obtain ⟨c', run, hacted⟩ := exists_delivered env hmem hlt hj hidle
    (Node.isStale_of_view (hm.view.trans h.view.symm)) hcan hfits
  simp only [Node.dispatch, hm.command] at hacted
  exact ⟨c', run, hacted⟩

/-- As long as they are not enough, it takes them one after the other. -/
theorem Crew.exists_wanted (hj : j ∈ insert q others) (hidle : Idle (c.nodes j))
    (h : Changing (c.state j) v b wanted []) (hsize : 12 + b.bytes ≤ maxPayload)
    (hnodup : todo.Nodup) (hfresh : ∀ i ∈ todo, i ∉ wanted)
    (hcard : wanted.card + todo.length ≤ f)
    (hway : ∀ i ∈ todo, OnWay c i j (IsStartViewChange v i)) :
    ∃ c' wanted', Steps step (Within env (insert q others)) c c' ∧ Took c j todo c'
      ∧ replies c' j = replies c j ∧ Idle (c'.nodes j) ∧ Changing (c'.state j) v b wanted' []
      ∧ wanted'.card = wanted.card + todo.length ∧ ∀ i ∈ wanted', i ∈ wanted ∨ i ∈ todo := by
  induction todo generalizing c wanted with
  | nil => exact ⟨c, wanted, .refl c, .refl c j [], rfl, hidle, h, rfl, fun i hi => Or.inl hi⟩
  | cons k todo ih =>
      obtain ⟨⟨m, hm, hmem⟩, hway⟩ := List.forall_mem_cons.mp hway
      obtain ⟨hk, hfresh⟩ := List.forall_mem_cons.mp hfresh
      obtain ⟨hnot, hnodup⟩ := List.nodup_cons.mp hnodup
      rw [List.length_cons] at hcard
      obtain ⟨c₁, run₁, hacted⟩ := hcrew.exists_told env hj hidle h hsize hm hmem
      have hmore : (insert k wanted).card = wanted.card + 1 := Finset.card_insert_of_notMem hk
      have hf : (c.nodes j).replica.state.faultToleranceF = f := hcrew.faultToleranceF j
      obtain ⟨hchanging, hout⟩ := handleStartViewChange_short env (r := (c.nodes j).replica) h
        ⟨.peer k, m⟩ (by rw [hf, hm.replica, hmore]; omega)
      rw [hm.replica] at hchanging
      have hchanging₁ : Changing (c₁.state j) v b (insert k wanted) [] := by
        rw [hacted.state]
        exact hchanging
      have hreplies₁ : replies c₁ j = replies c j := by
        rw [hacted.replies_self, hout, hidle.out]
        exact List.append_nil _
      obtain ⟨c₂, wanted', run₂, htook, hreplies₂, hidle₂, hchanging₂, hcard₂, hmem₂⟩ := ih
        (hcrew.steps run₁) (hacted.idle hidle) hchanging₁ hnodup
        (fun i hi => Finset.mem_insert.not.mpr (not_or.mpr ⟨fun heq => hnot (heq ▸ hi),
          hfresh i hi⟩)) (by rw [hmore]; omega)
        fun i hi => (hway i hi).taken hacted fun heq => hnot (heq ▸ hi)
      refine ⟨c₂, wanted', run₁.trans run₂,
        (hacted.took.mono (by simp)).trans (htook.mono fun i hi => List.mem_cons_of_mem _ hi),
        hreplies₂.trans hreplies₁, hidle₂, hchanging₂, ?_, fun i hi => ?_⟩
      · rw [hcard₂, hmore, List.length_cons]
        omega
      · rcases hmem₂ i hi with hi | hi
        · rcases Finset.mem_insert.mp hi with rfl | hi
          · exact Or.inr List.mem_cons_self
          · exact Or.inl hi
        · exact Or.inr (List.mem_cons_of_mem _ hi)

/-- The message that makes them enough is the last of `f`, besides the replica itself. -/
theorem Crew.exists_enough (hj : j ∈ insert q others) (hidle : Idle (c.nodes j))
    (h : Changing (c.state j) v b {j} []) (hsize : 12 + b.bytes ≤ maxPayload)
    (hnodup : senders.Nodup) (hself : j ∉ senders) (hlength : senders.length = f)
    (hway : ∀ i ∈ senders, OnWay c i j (IsStartViewChange v i)) :
    ∃ c₁ c₂ wanted im, Steps step (Within env (insert q others)) c c₁
      ∧ Steps step (Within env (insert q others)) c₁ c₂
      ∧ replies c₁ j = replies c j ∧ Idle (c₁.nodes j) ∧ Changing (c₁.state j) v b wanted []
      ∧ im.message.header.command = .startViewChange
      ∧ f + 1 ≤ (insert im.message.header.replica wanted).card
      ∧ Acted c₁ j (some im) ((c₁.nodes j).replica.handleStartViewChange env im) c₂
      ∧ Took c j senders c₂ := by
  cases senders with
  | nil =>
      rw [List.length_nil] at hlength
      exact absurd hcrew.pos (by omega)
  | cons i rest =>
      rw [List.length_cons] at hlength
      obtain ⟨hway_i, hway⟩ := List.forall_mem_cons.mp hway
      obtain ⟨hnot, hnodup⟩ := List.nodup_cons.mp hnodup
      obtain ⟨hji, hjrest⟩ := List.mem_cons.not.mp hself |> not_or.mp
      obtain ⟨c₁, wanted, run₁, htook, hreplies, hidle₁, hchanging, hcard, hmem⟩ :=
        hcrew.exists_wanted env hj hidle h hsize hnodup
          (fun k hk => Finset.mem_singleton.not.mpr fun heq => hjrest (heq ▸ hk))
          (by rw [Finset.card_singleton]; omega) hway
      have hway_i₁ : OnWay c₁ i j (IsStartViewChange v i) :=
        htook.way i j _ (fun _ => hnot) hway_i
      obtain ⟨m, hm, hmem_i⟩ := hway_i₁
      obtain ⟨c₂, run₂, hacted⟩ := (hcrew.steps run₁).exists_told env hj hidle₁ hchanging hsize hm
        hmem_i
      have hfresh : i ∉ wanted := fun hi => by
        rcases hmem i hi with hi | hi
        · exact hji (Finset.mem_singleton.mp hi).symm
        · exact hnot hi
      refine ⟨c₁, c₂, wanted, ⟨.peer i, m⟩, run₁, run₂, hreplies, hidle₁, hchanging, hm.command,
        ?_, hacted, (htook.mono fun k hk => List.mem_cons_of_mem _ hk).trans
          (hacted.took.mono (by simp))⟩
      rw [hm.replica, Finset.card_insert_of_notMem hfresh, hcard, Finset.card_singleton]
      omega

/-- A backup of the new view sends its vote. -/
theorem Crew.sends_vote (hj : j ∈ others) (hidle : Idle (c.nodes j))
    (h : Changing (c.state j) v b {j} []) (hsize : 12 + b.bytes ≤ maxPayload)
    (hnodup : senders.Nodup) (hself : j ∉ senders) (hlength : senders.length = f)
    (hway : ∀ i ∈ senders, OnWay c i j (IsStartViewChange v i)) :
    ∃ c', Steps step (Within env (insert q others)) c c' ∧ Took c j senders c'
      ∧ (Idle (c'.nodes j) ∧ Changing (c'.state j) v b ∅ []) ∧ OnWay c' j q (IsVote v b) := by
  obtain ⟨c₁, c₂, wanted, im, run₁, run₂, -, hidle₁, hchanging, hcmd, hquorum, hacted, htook⟩ :=
    hcrew.exists_enough env (Finset.mem_insert_of_mem hj) hidle h hsize hnodup hself hlength hway
  have hcrew₁ := hcrew.steps run₁
  have hne := (hcrew₁.mem j hj).2
  have hid : (c₁.nodes j).replica.state.id = j := hcrew₁.static.id j
  have hprimary : (c₁.state j).getPrimaryIdForView (c₁.state j).view = some q := by
    rw [hchanging.view, hcrew₁.getPrimaryIdForView]
  have hf : (c₁.nodes j).replica.state.faultToleranceF = f := hcrew₁.faultToleranceF j
  obtain ⟨hspent, hout⟩ := handleStartViewChange_votes env (r := (c₁.nodes j).replica) hchanging
    hcmd (by rw [hf]; exact hquorum) hprimary (by rw [hid]; exact hne.symm)
  have hcrew₂ := hcrew₁.steps run₂
  have hpeer : q ∈ peers (c₂.state j) :=
    hcrew₂.static.mem_peers.mpr ⟨hcrew₂.lt, hne.symm⟩
  refine ⟨c₂, run₁.trans run₂, htook, ⟨hacted.idle hidle₁, by rw [hacted.state]; exact hspent⟩,
    _, hchanging.isVote (hcrew₁.bounded.states j), hacted.sent_toPeer ?_ ?_⟩
  · rw [hout]
    exact List.mem_append_right _ (List.mem_singleton_self _)
  · rw [← hacted.state]
    exact hpeer

/-- The primary of the new view keeps its own. -/
theorem Crew.keeps_vote (hidle : Idle (c.nodes q)) (h : Changing (c.state q) v b {q} [])
    (hsize : 12 + b.bytes ≤ maxPayload) (hnodup : senders.Nodup) (hself : q ∉ senders)
    (hlength : senders.length = f)
    (hway : ∀ i ∈ senders, OnWay c i q (IsStartViewChange v i)) :
    ∃ c' d, Steps step (Within env (insert q others)) c c' ∧ Took c q senders c'
      ∧ replies c' q = replies c q ∧ Idle (c'.nodes q) ∧ Changing (c'.state q) v b ∅ [d]
      ∧ IsVote v b d := by
  obtain ⟨c₁, c₂, wanted, im, run₁, run₂, hreplies, hidle₁, hchanging, hcmd, hquorum, hacted,
    htook⟩ := hcrew.exists_enough env (Finset.mem_insert_self q others) hidle h hsize hnodup hself
      hlength hway
  have hcrew₁ := hcrew.steps run₁
  have hid : (c₁.nodes q).replica.state.id = q := hcrew₁.static.id q
  have hprimary : (c₁.state q).getPrimaryIdForView (c₁.state q).view = some q := by
    rw [hchanging.view, hcrew₁.getPrimaryIdForView]
  have hf : (c₁.nodes q).replica.state.faultToleranceF = f := hcrew₁.faultToleranceF q
  obtain ⟨hkept, hout⟩ := handleStartViewChange_keeps env (r := (c₁.nodes q).replica) hchanging
    hcmd (by rw [hf]; exact hquorum) (by rw [hid]; exact hprimary) (by rw [hf]; exact hcrew.pos)
  refine ⟨c₂, _, run₁.trans run₂, htook, ?_, hacted.idle hidle₁, by rw [hacted.state]; exact hkept,
    hchanging.isVote (hcrew₁.bounded.states q)⟩
  rw [hacted.replies_self, hout, hidle₁.out, hreplies]
  exact List.append_nil _

/-! ## Entering it -/

/-- The votes reach the new primary, the last of which makes a quorum. -/
theorem Crew.exists_started (hidle : Idle (c.nodes q))
    (h : Changing (c.state q) v b wanted votes) (hsize : 12 + b.bytes ≤ maxPayload)
    (hvotes : ∀ d ∈ votes, IsVote v b d) (hnodup : todo.Nodup) (hne : todo ≠ [])
    (hlength : votes.length + todo.length = f + 1)
    (hway : ∀ i ∈ todo, OnWay c i q (IsVote v b)) :
    ∃ c', Steps step (Within env (insert q others)) c c' ∧ (∀ i, i ≠ q → c'.nodes i = c.nodes i)
      ∧ replies c' q = replies c q ∧ (Idle (c'.nodes q) ∧ Settled (c'.state q) (v + 1) b)
      ∧ ∀ j ∈ others, OnWay c' q j (IsStartView (v + 1) q b) := by
  induction todo generalizing c votes with
  | nil => exact absurd rfl hne
  | cons j todo ih =>
      obtain ⟨⟨d, hd, hmem⟩, hway⟩ := List.forall_mem_cons.mp hway
      obtain ⟨hnot, hnodup⟩ := List.nodup_cons.mp hnodup
      rw [List.length_cons] at hlength
      have hcan : (c.nodes q).replica.canProcess ⟨.peer j, d⟩ = true := by
        simp only [canProcess, hd.command]
        show checkCanProcessDoViewChange (c.state q) d = true
        simp [checkCanProcessDoViewChange, h.status, hd.view, h.view, hcrew.getPrimaryIdForView,
          hcrew.static.id]
      obtain ⟨c₁, run₁, hacted⟩ := exists_delivered env hmem hcrew.lt
        (Finset.mem_insert_self q others) hidle
        (Node.isStale_of_view (hd.view.trans h.view.symm)) hcan (fitsFrame_vote h hvotes hd hsize)
      simp only [Node.dispatch, hd.command] at hacted
      have hf : (c.nodes q).replica.state.faultToleranceF = f := hcrew.faultToleranceF q
      have hcrew₁ := hcrew.steps run₁
      by_cases hlast : todo = []
      · rw [hlast, List.length_nil] at hlength
        obtain ⟨hsettled, hout⟩ := handleDoViewChange_last env (r := (c.nodes q).replica) h
          (by rw [hf]; omega)
          (show ∀ d' ∈ votes ++ [(⟨.peer j, d⟩ : InboundMessage).message], IsVote v b d' from
            forall_mem_append_singleton hvotes hd)
        have hsettled₁ : Settled (c₁.state q) (v + 1) b := by
          rw [hacted.state]
          exact hsettled
        refine ⟨c₁, run₁, hacted.others, ?_, ⟨hacted.idle hidle, hsettled₁⟩, fun i hi => ?_⟩
        · rw [hacted.replies_self, hout, hidle.out]
          exact List.append_nil _
        · have hstart := hsettled₁.isStartView (hcrew₁.bounded.states q) (hcrew₁.u8_id hcrew₁.lt)
          refine ⟨_, hstart, hacted.sent_broadcast ?_ ?_⟩
          · rw [hout, hacted.state]
            exact List.mem_append_right _ (List.mem_singleton_self _)
          · rw [← hacted.state]
            exact hcrew₁.mem_peers hi
      · have hleft : 0 < todo.length := List.length_pos_iff.mpr hlast
        obtain ⟨hchanging, hout⟩ := handleDoViewChange_short env (r := (c.nodes q).replica) h
          ⟨.peer j, d⟩ (by rw [hf]; omega)
        have hchanging₁ : Changing (c₁.state q) v b wanted (votes ++ [d]) := by
          rw [hacted.state]
          exact hchanging
        obtain ⟨c₂, run₂, hothers, hreplies, hsettled, hstarted⟩ := ih hcrew₁ (hacted.idle hidle)
          hchanging₁ (forall_mem_append_singleton hvotes hd) hnodup hlast
          (by rw [List.length_append, List.length_singleton]; omega)
          fun i hi => (hway i hi).taken hacted fun heq => hnot (heq ▸ hi)
        refine ⟨c₂, run₁.trans run₂, fun i hi => (hothers i hi).trans (hacted.others i hi), ?_,
          hsettled, hstarted⟩
        rw [hreplies, hacted.replies_self, hout, hidle.out]
        exact List.append_nil _

/-- A backup of the new view adopts its log. -/
theorem Crew.adopts (hj : j ∈ others) (hidle : Idle (c.nodes j))
    (h : Changing (c.state j) v b wanted []) (hsize : 12 + b.bytes ≤ maxPayload)
    (hway : OnWay c q j (IsStartView (v + 1) q b)) :
    ∃ c' taken r, Steps step (Within env (insert q others)) c c' ∧ Acted c j taken r c'
      ∧ Settled (c'.state j) (v + 1) b := by
  obtain ⟨m, hm, hmem⟩ := hway
  obtain ⟨hlt, -⟩ := hcrew.mem j hj
  have hcan : (c.nodes j).replica.canProcess ⟨.peer q, m⟩ = true := by
    simp only [canProcess, hm.command]
    show checkCanProcessStartView (c.state j) m = true
    simp [checkCanProcessStartView, h.status, hm.view, h.view, hcrew.getPrimaryIdForView,
      hm.replica]
  have hfits : FitsFrame env.uninitialized (c.state j) m :=
    fitsFrame_of_no_votes h (by rw [hcrew.faultToleranceF]; exact hcrew.pos)
      (by simp [hm.command]) hsize
  obtain ⟨c', run, hacted⟩ := exists_delivered env hmem hlt (Finset.mem_insert_of_mem hj) hidle
    (Node.isStale_of_view (hm.view.trans h.view.symm)) hcan hfits
  simp only [Node.dispatch, hm.command] at hacted
  refine ⟨c', _, _, run, hacted, ?_⟩
  rw [hacted.state]
  exact handleStartView_settles h hm

end

/-! ## A change of primaries -/

/-- The replicas vote: the new primary has its own, and enough others are on their way. -/
theorem Crew.exists_voted (hcrew : Crew f (v + 1) q others c) (hv : v + 1 < 2 ^ 32)
    (hsize : 12 + b.bytes ≤ maxPayload)
    (hsettled : ∀ i ∈ insert q others,
      (Idle (c.nodes i) ∧ Settled (c.state i) v b) ∧ i ≠ v % c.size)
    {voters : Finset Nat} (hsub : voters ⊆ others) (hcard : voters.card = f) :
    ∃ c' d, Steps step (Within env (insert q others)) c c' ∧ replies c' q = replies c q
      ∧ (Idle (c'.nodes q) ∧ Changing (c'.state q) v b ∅ [d]) ∧ IsVote v b d
      ∧ (∀ j ∈ voters, OnWay c' j q (IsVote v b))
      ∧ ∀ j ∈ others, Idle (c'.nodes j) ∧ ∃ wanted, Changing (c'.state j) v b wanted [] := by
  have hself : q ∉ voters := fun hq => (hcrew.mem q (hsub hq)).2 rfl
  have hlength : ∀ j ∈ voters, ((insert q voters).erase j).toList.length = f := by
    intro j hj
    rw [Finset.length_toList, Finset.card_erase_of_mem (Finset.mem_insert_of_mem hj),
      Finset.card_insert_of_notMem hself, hcard, Nat.add_sub_cancel]
  obtain ⟨c₁, run₁, hreplies₁, hchanging₁⟩ := hcrew.exists_timed_out env hv hsettled
  have hcrew₁ := hcrew.steps run₁
  obtain ⟨⟨hidle₁, hprimary₁⟩, -⟩ := hchanging₁ q (Finset.mem_insert_self q others)
  obtain ⟨c₂, d, run₂, htook₂, hreplies₂, hidle₂, hprimary₂, hd⟩ := hcrew₁.keeps_vote env hidle₁
    hprimary₁ hsize (Finset.nodup_toList voters) (Finset.mem_toList.not.mpr hself)
    (by rw [Finset.length_toList, hcard]) fun i hi => by
      have hi := Finset.mem_toList.mp hi
      exact (hchanging₁ i (Finset.mem_insert_of_mem (hsub hi))).2 q
        (Finset.mem_insert_self q others) fun heq => hself (heq ▸ hi)
  have hothers₂ : ∀ j ∈ others, Idle (c₂.nodes j) ∧ Changing (c₂.state j) v b {j} [] := by
    intro j hj
    have hne := (hcrew.mem j hj).2
    rw [htook₂.others j hne, htook₂.state hne]
    exact (hchanging₁ j (Finset.mem_insert_of_mem hj)).1
  obtain ⟨c₃, run₃, ⟨-, hkept₃, hreplies₃⟩, hvoted₃⟩ := Steps.exists_forEach
    (I := fun u => Crew f (v + 1) q others u ∧ (∀ i, i ∉ voters → u.nodes i = c₂.nodes i)
      ∧ replies u q = replies c₂ q)
    (P := fun j u => (Idle (u.nodes j) ∧ Changing (u.state j) v b {j} [])
      ∧ ∀ i ∈ (insert q voters).erase j, OnWay u i j (IsStartViewChange v i))
    (Q := fun j u => (Idle (u.nodes j) ∧ Changing (u.state j) v b ∅ [])
      ∧ OnWay u j q (IsVote v b))
    (Finset.nodup_toList voters)
    (fun j hj u ⟨hcrew, hkept, hreplies⟩ ⟨⟨hidle, hchanging⟩, hway⟩ => by
      have hj := Finset.mem_toList.mp hj
      have hne : j ≠ q := fun heq => hself (heq ▸ hj)
      obtain ⟨u', run, htook, hspent, hvote⟩ := hcrew.sends_vote env (hsub hj) hidle hchanging hsize
        (Finset.nodup_toList _) (by simp) (hlength j hj)
        fun i hi => hway i (Finset.mem_toList.mp hi)
      refine ⟨u', run, ⟨hcrew.steps run, fun i hi => ?_, (htook.replies q hne.symm).trans hreplies⟩,
        ⟨hspent, hvote⟩, fun i hij => ?_⟩
      · exact (htook.others i fun heq => hi (heq ▸ hj)).trans (hkept i hi)
      · rw [htook.others i hij, htook.state hij]
        exact ⟨fun h => ⟨h.1, fun k hk => htook.way k i _ (fun heq => absurd heq hij) (h.2 k hk)⟩,
          fun h => ⟨h.1, htook.way i q _ (fun heq => absurd heq hne.symm) h.2⟩⟩)
    ⟨hcrew₁.steps run₂, fun _ _ => rfl, rfl⟩
    (fun j hj => by
      have hj := Finset.mem_toList.mp hj
      have hne : j ≠ q := fun heq => hself (heq ▸ hj)
      refine ⟨hothers₂ j (hsub hj), fun i hi => ?_⟩
      obtain ⟨hij, hi⟩ := Finset.mem_erase.mp hi
      refine htook₂.way i j _ (fun heq => absurd heq hne) ?_
      exact (hchanging₁ i (Finset.insert_subset_insert q hsub hi)).2 j
        (Finset.mem_insert_of_mem (hsub hj)) hij.symm)
  refine ⟨c₃, d, (run₁.trans run₂).trans run₃, ?_, ?_, hd,
    fun j hj => (hvoted₃ j (Finset.mem_toList.mpr hj)).2, fun j hj => ?_⟩
  · rw [hreplies₃, hreplies₂, hreplies₁]
  · rw [Cluster.state, hkept₃ q hself]
    exact ⟨hidle₂, hprimary₂⟩
  · by_cases hvoter : j ∈ voters
    · obtain ⟨⟨hidle, hchanging⟩, -⟩ := hvoted₃ j (Finset.mem_toList.mpr hvoter)
      exact ⟨hidle, _, hchanging⟩
    · rw [Cluster.state, hkept₃ j hvoter]
      exact ⟨(hothers₂ j hj).1, _, (hothers₂ j hj).2⟩

/-- Replicas that hold the same ledger change to the next view and are in step there. -/
theorem Crew.fails_over (hcrew : Crew f (v + 1) q others c) (hv : v + 1 < 2 ^ 32)
    (hsize : 12 + b.bytes ≤ maxPayload)
    (hsettled : ∀ i ∈ insert q others,
      (Idle (c.nodes i) ∧ Settled (c.state i) v b) ∧ i ≠ v % c.size) :
    ∃ c', Steps step (Within env (insert q others)) c c' ∧ InStep f (v + 1) q others b c'
      ∧ replies c' q = replies c q := by
  obtain ⟨voters, hsub, hcard⟩ := Finset.exists_subset_card_eq hcrew.card
  obtain ⟨c₁, d, run₁, hreplies₁, ⟨hidle₁, hprimary₁⟩, hd, hway₁, hothers₁⟩ :=
    hcrew.exists_voted env hv hsize hsettled hsub hcard
  have hcrew₁ := hcrew.steps run₁
  have hnonempty : voters.toList ≠ [] := by
    rw [← List.length_pos_iff, Finset.length_toList, hcard]
    exact hcrew.pos
  obtain ⟨c₂, run₂, hkept₂, hreplies₂, hprimary₂, hway₂⟩ := hcrew₁.exists_started env hidle₁
    hprimary₁ hsize (List.forall_mem_singleton.mpr hd) (Finset.nodup_toList voters) hnonempty
    (by rw [List.length_singleton, Finset.length_toList, hcard, Nat.add_comm])
    fun i hi => hway₁ i (Finset.mem_toList.mp hi)
  obtain ⟨c₃, run₃, ⟨hcrew₃, hnode₃, hreplies₃⟩, hdone₃⟩ := Steps.exists_forEach
    (I := fun u => Crew f (v + 1) q others u ∧ u.nodes q = c₂.nodes q ∧ replies u q = replies c₂ q)
    (P := fun j u => (Idle (u.nodes j) ∧ ∃ wanted, Changing (u.state j) v b wanted [])
      ∧ OnWay u q j (IsStartView (v + 1) q b))
    (Q := fun j u => Idle (u.nodes j) ∧ Settled (u.state j) (v + 1) b)
    (Finset.nodup_toList others)
    (fun j hj u ⟨hcrew, hnode, hreplies⟩ ⟨⟨hidle, wanted, hchanging⟩, hway⟩ => by
      have hj := Finset.mem_toList.mp hj
      have hne := (hcrew.mem j hj).2
      obtain ⟨u', _, _, run, hacted, hsettled⟩ := hcrew.adopts env hj hidle hchanging hsize hway
      refine ⟨u', run, ⟨hcrew.steps run, (hacted.others q hne.symm).trans hnode,
        (hacted.replies_ne hne.symm).trans hreplies⟩, ⟨hacted.idle hidle, hsettled⟩,
        fun i hij => ?_⟩
      rw [hacted.others i hij, hacted.state_ne hij]
      exact ⟨fun h => ⟨h.1, h.2.acted hacted hij⟩, id⟩)
    ⟨hcrew₁.steps run₂, rfl, rfl⟩
    (fun j hj => by
      have hj := Finset.mem_toList.mp hj
      rw [Cluster.state, hkept₂ j (hcrew.mem j hj).2]
      exact ⟨hothers₁ j hj, hway₂ j hj⟩)
  refine ⟨c₃, (run₁.trans run₂).trans run₃, ⟨hcrew₃, fun i hi => ?_⟩, ?_⟩
  · rcases Finset.mem_insert.mp hi with rfl | hi
    · rw [Cluster.state, hnode₃]
      exact hprimary₂
    · exact hdone₃ i (Finset.mem_toList.mpr hi)
  · rw [hreplies₃, hreplies₂, hreplies₁]

/-! ## Primaries that crash one after the other -/

/-- The bytes that the requests take up in a log that is sent. -/
def logBytes (reqs : List (Nat × VsrMessage)) : Nat :=
  (reqs.map fun req => 41 + req.2.payload.length).sum

theorem bytes_addAll {reqs : List (Nat × VsrMessage)} (hnew : AllNew b.last reqs) :
    (b.addAll v reqs hnew).bytes = b.bytes + logBytes reqs := by
  induction reqs generalizing b with
  | nil => rfl
  | cons req reqs ih =>
      have hbytes : (b.add v req.2 hnew.2.2.1).bytes = b.bytes + (41 + req.2.payload.length) := by
        simp [Ledger.bytes, Ledger.add, entryOf]
      refine (ih (b := b.add v req.2 hnew.2.2.1) hnew.2.2.2).trans ?_
      rw [hbytes, logBytes, logBytes, List.map_cons, List.sum_cons]
      omega

/-- Who is left of `n` replicas once those below `i` have crashed. -/
def left (n : Nat) (down : Finset Nat) (i : Nat) : Finset Nat := Finset.Ico i n \ down

/-- Replica `i` can answer the first of `terms`, and when it has crashed the next replica the
second, and so on, as if all had been put to one replica that began with `m`. -/
def Succeed (n : Nat) (down : Finset Nat) :
    Nat → StdMap Bytes Bytes → List (List (Nat × VsrMessage)) → Cluster → Prop
  | _, _, [], _ => True
  | i, m, reqs :: terms, c =>
      ∀ env, ∃ c', Run (Within env (left n down i)) c c'
        ∧ replies c' i = replies c i ++ answersTo i m reqs
        ∧ Succeed n down (i + 1) (afterAll m reqs) terms c'

section

variable {n : Nat} {down : Finset Nat}

theorem insert_left (hi : i < n) (hup : i ∉ down) :
    insert i (left n down (i + 1)) = left n down i := by
  ext k
  simp only [left, Finset.mem_insert, Finset.mem_sdiff, Finset.mem_Ico]
  constructor
  · rintro (rfl | ⟨⟨hle, hlt⟩, hk⟩)
    · exact ⟨⟨Nat.le_refl _, hi⟩, hup⟩
    · exact ⟨⟨by omega, hlt⟩, hk⟩
  · rintro ⟨⟨hle, hlt⟩, hk⟩
    rcases Nat.eq_or_lt_of_le hle with rfl | hlt'
    · exact Or.inl rfl
    · exact Or.inr ⟨⟨hlt', hlt⟩, hk⟩

theorem card_left (n : Nat) (down : Finset Nat) (i : Nat) :
    n - i ≤ (left n down i).card + down.card := by
  have hle := Finset.le_card_sdiff down (Finset.Ico i n)
  rw [Nat.card_Ico] at hle
  rw [left]
  omega

theorem mem_left (hi : i ∈ left n down (j + 1)) : i < n ∧ i ≠ j := by
  simp only [left, Finset.mem_sdiff, Finset.mem_Ico] at hi
  omega

/-- Replica `i` has crashed, and the next one takes over. -/
theorem InStep.succeeds (h : InStep f i i (left (2 * f + 1) down (i + 1)) b c)
    (hdown : down.card + (i + 1) ≤ f) (hup : i + 1 ∉ down) (hsize : 12 + b.bytes ≤ maxPayload) :
    ∃ c', Steps step (Within env (left (2 * f + 1) down (i + 1))) c c'
      ∧ InStep f (i + 1) (i + 1) (left (2 * f + 1) down (i + 1 + 1)) b c'
      ∧ replies c' (i + 1) = replies c (i + 1) := by
  have hinsert := insert_left (n := 2 * f + 1) (by omega) hup
  have hcard := card_left (2 * f + 1) down (i + 1 + 1)
  have hcrew : Crew f (i + 1) (i + 1) (left (2 * f + 1) down (i + 1 + 1)) c :=
    { static := h.crew.static
      bounded := h.crew.bounded
      pos := h.crew.pos
      small := h.crew.small
      size := h.crew.size
      primary := by rw [h.crew.size, Nat.mod_eq_of_lt (by omega)]
      mem := fun j hj => by rw [h.crew.size]; exact mem_left hj
      card := by omega }
  have hsmall := h.crew.small
  have hover := hcrew.fails_over env (b := b) (by omega) hsize fun j hj => by
    rw [hinsert] at hj
    refine ⟨h.settled j (Finset.mem_insert_of_mem hj), ?_⟩
    rw [h.crew.size, Nat.mod_eq_of_lt (by omega)]
    exact (mem_left hj).2
  rw [hinsert] at hover
  exact hover

theorem exists_succession (terms : List (List (Nat × VsrMessage)))
    (hready : ∀ env, ∃ c', Steps step (Within env (left (2 * f + 1) down i)) c c'
      ∧ InStep f i i (left (2 * f + 1) down (i + 1)) b c' ∧ replies c' i = replies c i)
    (hdown : down.card + (i + terms.length) ≤ f + 1) (hup : ∀ k < i + terms.length, k ∉ down)
    (hroom : b.entries.length + terms.flatten.length < 2 ^ 64)
    (hframes : ∀ req ∈ terms.flatten, req.2.payload.length ≤ maxPayload)
    (hlog : 12 + b.bytes + logBytes terms.dropLast.flatten ≤ maxPayload)
    (hnew : AllNew b.last terms.flatten) : Succeed (2 * f + 1) down i b.machine terms c := by
  induction terms generalizing i b c with
  | nil => trivial
  | cons reqs terms ih =>
      intro env
      obtain ⟨c₁, run₁, hinStep, hreplies₁⟩ := hready env
      rw [List.flatten_cons] at hroom hframes hnew
      rw [List.length_append] at hroom
      rw [List.length_cons] at hdown hup
      obtain ⟨hframes, hframes'⟩ := List.forall_mem_append.mp hframes
      obtain ⟨hfirst, hrest⟩ := AllNew.of_append (v := i) hnew
      obtain ⟨c₂, run₂, hinStep₂, hreplies₂⟩ := hinStep.serves env reqs (by omega) hframes hfirst
      rw [insert_left (by omega) (hup i (by omega))] at run₂
      refine ⟨c₂, run₁.trans run₂, by rw [hreplies₂, hreplies₁], ?_⟩
      rw [← Ledger.machine_addAll hfirst]
      cases terms with
      | nil => trivial
      | cons reqs' terms =>
          rw [List.dropLast_cons_of_ne_nil (List.cons_ne_nil _ _), List.flatten_cons] at hlog
          have hbytes := bytes_addAll (v := i) hfirst
          have hsum : ∀ l l' : List (Nat × VsrMessage),
              logBytes (l ++ l') = logBytes l + logBytes l' := fun l l' => by
            simp [logBytes]
          rw [hsum] at hlog
          rw [List.length_cons] at hdown hup
          exact ih (fun env => hinStep₂.succeeds env (by omega) (hup (i + 1) (by omega)) (by omega))
            (by rw [List.length_cons]; omega)
            (fun k hk => hup k (by rw [List.length_cons] at hk; omega))
            (by rw [Ledger.length_addAll]; omega) hframes' (by omega) hrest

end

/-- A cluster of `2f + 1` that is to lose no more than `f` replicas can lose primaries: each
of the first ones may serve a list of new requests and crash, and the next goes on where it
stopped, as long as the log fits a message. Some replicas may be down from the start, if
none of them is to be primary. -/
theorem serves_through_crashes (f : Nat) (hpos : 0 < f) (hsmall : 2 * f + 1 ≤ 256)
    (down : Finset Nat) (terms : List (List (Nat × VsrMessage)))
    (hdown : down.card + terms.length ≤ f + 1) (hup : ∀ i < terms.length, i ∉ down)
    (hroom : terms.flatten.length < 2 ^ 64)
    (hframes : ∀ req ∈ terms.flatten, req.2.payload.length ≤ maxPayload)
    (hlog : 12 + logBytes terms.dropLast.flatten ≤ maxPayload)
    (hnew : AllNew (fun _ => 0) terms.flatten) :
    Succeed (2 * f + 1) down 0 ∅ terms (init (2 * f + 1)) := by
  cases terms with
  | nil => trivial
  | cons reqs terms =>
      have hcard := card_left (2 * f + 1) down 1
      rw [List.length_cons] at hdown
      have hinStep : InStep f 0 0 (left (2 * f + 1) down (0 + 1)) .empty (init (2 * f + 1)) :=
        inStep_init hpos hsmall (fun j hj => mem_left hj) (by rw [Nat.zero_add]; omega)
      exact exists_succession (b := .empty) (reqs :: terms) (fun _ => ⟨_, .refl _, hinStep, rfl⟩)
        (by rw [List.length_cons]; omega) (fun k hk => hup k (by rwa [Nat.zero_add] at hk))
        (by rw [show Ledger.empty.entries.length = 0 from rfl, Nat.zero_add]; exact hroom) hframes
        hlog hnew

/-- One client sets a key, another reads it. -/
def setThenGet : List (Nat × VsrMessage) :=
  [(7, setRequest 1 1 [97, 32, 98]),
    (8, { header := { command := .request, operation := .get, client := { low := 2 }, request := 1 }
          payload := [97] })]

/-- Replica 0 sets the key and crashes; replica 1 is asked for it. -/
theorem serves_through_crashes_once :
    Succeed (2 * 1 + 1) ∅ 0 ∅ [setThenGet.take 1, setThenGet.drop 1] (init (2 * 1 + 1)) :=
  serves_through_crashes 1 (by norm_num) (by norm_num) ∅ _ (by decide) (by decide) (by decide)
    (by decide) (by decide) ⟨by decide, rfl, by decide, by decide, rfl, by decide, trivial⟩

end Cluster

end VsrKv
