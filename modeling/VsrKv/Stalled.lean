import VsrKv.Runs

/-!
# A view change waits for its primary

No timer runs for a replica in a view change: `check_primary_liveness`
looks at replicas in normal operation only, and so does
`process_message_queue` when it decides how to react to a message it
cannot process. What is left is the `StartView` of the new view's
primary. If that replica is down, the ones that have joined its view
neither come back nor go on to the next, whatever the others send them
(`view_change_waits`).
-/

namespace VsrKv

open Replica TransitionSystem
open Event (process receive request)

/-! ## Nothing but a `StartView` helps -/

section

variable {env : Env} {s s' : ReplicaState} {im : InboundMessage} {effs : List Effect}

/-- Short of a `StartView`, the most a backup of the next view does is count who joins. -/
theorem Acts.waits (h : Acts env s im s' effs) {p : Nat} (hst : s.status = .viewChange)
    (hp : s.getPrimaryIdForView s.view = some p) (hne : p ≠ s.id)
    (hnone : im.message.header.command = .startView → im.message.header.view ≠ s.view) :
    (∃ joined, s' = { s with startViewChangeReceived := joined })
      ∧ ∀ eff ∈ effs, eff.executed? = none := by
  have hcollect : ∀ {s₁ : ReplicaState} {d : VsrMessage}, ¬CollectsVote s im s₁ d := by
    intro s₁ d hcollect
    rw [hcollect.primary] at hp
    exact hne (Option.some.inj hp).symm
  cases h with
  | ignore => exact ⟨⟨_, rfl⟩, by simp⟩
  | pong msg hcmd hmsg => exact ⟨⟨_, rfl⟩, by simp [Effect.executed?]⟩
  | join => exact ⟨⟨_, rfl⟩, by simp⟩
  | vote q hcmd hview hst' hquorum hq hqne => exact ⟨⟨_, rfl⟩, by simp [Effect.executed?]⟩
  | discard => exact ⟨⟨_, rfl⟩, by simp⟩
  | collect s₁ d h => exact absurd h hcollect
  | startView s₁ d h => exact absurd h hcollect
  | adopt payload s' effs hcmd hview => exact absurd hview (hnone hcmd)
  | old _ hst' | propose _ hst' | accept _ _ _ hst' | acknowledge _ _ _ _ hst'
  | learn _ _ _ hst' | respond _ _ hst' | gather _ _ hst' | recover _ _ hst' =>
      rw [hst] at hst'
      cases hst'

/-- A `StartView` is sent by the primary of its view. -/
theorem Acts.startView_primary (h : Acts env s im s' effs) {eff : Effect} {m : VsrMessage}
    (heff : eff ∈ effs) (hm : eff.message? = some m) (hcmd : m.header.command = .startView) :
    s.getPrimaryIdForView m.header.view = some s.id := by
  cases h.logCarrier eff heff m hm with
  | plain hplain => exact absurd hcmd hplain.2.1
  | vote _ _ hmsg => subst hmsg; cases hcmd
  | start s₁ d hcollect hprimary _ hmsg =>
      subst hmsg
      have hview : s₁.view = s.view := by cases hcollect <;> rfl
      rw [startViewMessage, startedState, hview]
      exact hprimary
  | response _ _ _ hmsg => subst hmsg; cases hcmd

end

namespace Cluster

/-! ## Without the primary's turns -/

variable {c c' : Cluster} {ev : Event} {i v : Nat}

/-- No `StartView` for view `v` is on its way to `i`. -/
def NoStartView (c : Cluster) (i v : Nat) : Prop :=
  ∀ im ∈ c.pend i, im.message.header.command = .startView → im.message.header.view ≠ v

instance (c : Cluster) (i v : Nat) : Decidable (c.NoStartView i v) :=
  inferInstanceAs (Decidable (∀ im ∈ c.pend i, _ → _))

/-- A step in which `p` makes no turn and `i` does not restart. -/
def WithoutTurns (p i : Nat) (_ : Cluster) (ev : Event) (_ : Cluster) : Prop :=
  ev.ticked? ≠ some p ∧ ev.restarted? ≠ some i

instance (p i : Nat) (c : Cluster) (ev : Event) (c' : Cluster) :
    Decidable (WithoutTurns p i c ev c') := inferInstanceAs (Decidable (_ ∧ _))

/-- What `i` waits with: the state it joined the view in but for who else has, and
nothing executed since. -/
structure WaitsSince (c : Cluster) (i : Nat) (c' : Cluster) : Prop where
  state : ∃ joined, c'.state i = { c.state i with startViewChangeReceived := joined }
  noStartView : c'.NoStartView i (c.state i).view
  executed : ∀ v n e res, (i, Effect.executed v n e res) ∈ c'.trace →
    (i, Effect.executed v n e res) ∈ c.trace

theorem NoStartView.of_local {j : Nat} {s' : ReplicaState} {q' : List InboundMessage}
    {effs : List Effect} (h : c.NoStartView i v) (hlocal : Local c c' j s' q' effs)
    (hsub : q' ⊆ c.queue j)
    (hnone : ∀ eff ∈ effs, ∀ m, eff.message? = some m → m.header.command = .startView →
      m.header.view ≠ v) : c'.NoStartView i v := by
  intro im him hcmd
  rcases hlocal.mem_pend hsub him with him | him
  · exact h im him hcmd
  · obtain ⟨eff, heff, hm, -⟩ := mem_mail him
    exact hnone eff heff _ hm hcmd

theorem WaitsSince.step {c₀ : Cluster} (hst : (c₀.state i).status = .viewChange) (hi : i < c.size)
    (hp : (c₀.state i).view % c.size ≠ i) (hstatic : c.Static) (h : WaitsSince c₀ i c)
    (hmoves : c.Moves ev c') (hok : WithoutTurns ((c₀.state i).view % c.size) i c ev c') :
    WaitsSince c₀ i c' := by
  obtain ⟨joined, hself⟩ := h.state
  have hpos : 0 < c.size := by omega
  have hst' : (c.state i).status = .viewChange := by rw [hself]; exact hst
  have hview : (c.state i).view = (c₀.state i).view := by rw [hself]
  -- the primary of the view is not the one that acts, so what is sent is no `StartView` for it
  have hacts : ∀ {j : Nat} {env : Env} {im : InboundMessage} {s' : ReplicaState}
      {effs : List Effect}, ev = .tick j env → Acts env (c.state j) im s' effs →
      ∀ eff ∈ effs, ∀ m, eff.message? = some m → m.header.command = .startView →
        m.header.view ≠ (c₀.state i).view := by
    intro j env im s' effs hev hacts eff heff m hm hcmd heq
    have hprimary := hacts.startView_primary heff hm hcmd
    rw [hstatic.getPrimaryIdForView hpos, hstatic.id, heq, Option.some.injEq] at hprimary
    exact hok.1 (by rw [hev, hprimary]; rfl)
  -- a step of another replica leaves `i` as it was
  have hother : ∀ {j : Nat} {s' : ReplicaState} {q' : List InboundMessage} {effs : List Effect},
      j ≠ i → Local c c' j s' q' effs → c'.NoStartView i (c₀.state i).view →
      WaitsSince c₀ i c' := by
    intro j s' q' effs hj hlocal hnone
    refine ⟨⟨joined, by rw [hlocal.state_ne i (Ne.symm hj), hself]⟩, hnone, ?_⟩
    intro v n e res hexec
    rw [hlocal.trace] at hexec
    rcases List.mem_append.mp hexec with hexec | hexec
    · exact h.executed v n e res hexec
    · obtain ⟨eff, -, heq⟩ := List.mem_map.mp hexec
      exact absurd (Prod.mk.inj heq).1 hj
  cases hmoves with
  | quiet hsize hstate htrace hmem hcount =>
      refine ⟨⟨joined, by rw [hstate, hself]⟩, ?_, by rw [htrace]; exact h.executed⟩
      intro im him hcmd
      rcases hmem i im him with him | ⟨-, hclient⟩
      · exact h.noStartView im him hcmd
      · rcases command_of_client hclient with hclient | hclient <;> simp [hclient] at hcmd
  | duplicate k hev hsize hstate htrace hmem =>
      exact ⟨⟨joined, by rw [hstate, hself]⟩,
        fun im him => h.noStartView im (hmem i im him), by rw [htrace]; exact h.executed⟩
  | act j env hev im rest s' effs hqueue hstale hacts' hlocal =>
      have hsub : rest ⊆ c.queue j := by rw [hqueue]; exact List.subset_cons_self _ _
      have hnone := h.noStartView.of_local hlocal hsub (hacts hev hacts')
      by_cases hj : j = i
      · subst hj
        have hpend : im ∈ c.pend j := by simp [pend, hqueue]
        obtain ⟨⟨joined', rfl⟩, hexec⟩ := hacts'.waits hst' (hstatic.getPrimaryIdForView hpos _)
          (by rw [hstatic.id, hview]; exact hp)
          (fun hcmd => by rw [hview]; exact h.noStartView im hpend hcmd)
        refine ⟨⟨joined', by rw [hlocal.state_self, hself]⟩, hnone, ?_⟩
        intro v n e res hmem
        rw [hlocal.trace] at hmem
        rcases List.mem_append.mp hmem with hmem | hmem
        · exact h.executed v n e res hmem
        · obtain ⟨eff, heff, heq⟩ := List.mem_map.mp hmem
          obtain rfl := (Prod.mk.inj heq).2
          cases hexec _ heff
      · exact hother hj hlocal hnone
  | enterView j s' hst'' hs' hlocal =>
      have hj : j ≠ i := by rintro rfl; rw [hst'] at hst''; cases hst''
      exact hother hj hlocal (h.noStartView.of_local hlocal (List.Subset.refl _)
        (forall_message_singleton rfl (by simp [startViewChangeMessage])))
  | enterRecovery j stuck rest nonce s' hst'' hqueue hcan haction hs' hlocal =>
      have hj : j ≠ i := by rintro rfl; rw [hst'] at hst''; cases hst''
      exact hother hj hlocal (h.noStartView.of_local hlocal (List.nil_subset _)
        (forall_message_singleton rfl (by simp [recoveryMessage])))
  | heartbeat j hst'' hprimary hlocal =>
      have hj : j ≠ i := by rintro rfl; rw [hst'] at hst''; cases hst''
      exact hother hj hlocal (h.noStartView.of_local hlocal (List.Subset.refl _)
        (forall_message_singleton rfl (by simp [commitMessage])))
  | restart j hev hlt hsize hself' hne htrace hpend =>
      have hj : j ≠ i := by rintro rfl; exact hok.2 (by rw [hev]; rfl)
      refine ⟨⟨joined, by rw [hne i (Ne.symm hj), hself]⟩, ?_, by rw [htrace]; exact h.executed⟩
      intro im him
      rw [hpend, if_neg (Ne.symm hj)] at him
      exact h.noStartView im him

/-- A backup that has joined view `v` and has no `StartView` coming stays as it is for
as long as the primary of `v` makes no turn: neither the other replicas nor the clients
nor time get it out of the view change, and it executes nothing. -/
theorem view_change_waits {ok : Cluster → Event → Cluster → Prop} {n : Nat} {c c' : Cluster}
    {i : Nat} (run : Run ok (init n) c) (hi : i < n) (hst : (c.state i).status = .viewChange)
    (hp : (c.state i).view % n ≠ i) (hnone : c.NoStartView i (c.state i).view)
    (run' : Run (WithoutTurns ((c.state i).view % n) i) c c') : WaitsSince c i c' := by
  have hstatic := static_run run
  have hsize := size_run run
  have hstart : WaitsSince c i c := ⟨⟨_, rfl⟩, hnone, fun _ _ _ _ h => h⟩
  have hkept : c'.Static ∧ c'.size = n ∧ WaitsSince c i c' := by
    refine run'.invariant (I := fun c' => c'.Static ∧ c'.size = n ∧ WaitsSince c i c')
      ⟨hstatic, hsize, hstart⟩ ?_
    rintro u ev w - hstep hok ⟨hstatic, hsize, h⟩
    have hmoves := step_moves hstatic hstep
    subst hsize
    exact ⟨static_step hstatic hstep, hmoves.size, h.step hst hi hp hstatic hmoves hok⟩
  exact hkept.2.2

/-- Replicas 2 and 0 give up on view 0. -/
def joinedViewOne : List Event := [.timeout 2, .deliver 0] ++ process 0 1

/-- Replica 2 learns that they are two, and votes; the primary of view 1 is down, and
heartbeats, a request and further timeouts change nothing. -/
def waitingForOne : List Event :=
  receive 2 2 ++ [.client 2 7 (setRequest 1 1 [97, 32, 98])] ++ process 2 1
    ++ [.timeout 2, .heartbeat 0, .timeout 0, .timeout 2]

theorem view_change_waits_for_one :
    ∃ c c', (c.state 2).status = .viewChange ∧ c'.net ≠ c.net ∧ WaitsSince c 2 c' := by
  obtain ⟨c, c', run, run', hst, hview, hnone, hnet⟩ :=
    exists_of_replay₂ step (WithoutTurns 1 2) (init 3) joinedViewOne waitingForOne
      (P := fun c c' => (c.state 2).status = .viewChange ∧ (c.state 2).view % 3 = 1
        ∧ c.NoStartView 2 (c.state 2).view ∧ c'.net ≠ c.net) (by decide +kernel)
  exact ⟨c, c', hst, hnet, view_change_waits run (by norm_num) hst (by rw [hview]; norm_num) hnone
    (hview.symm ▸ run')⟩

end Cluster

end VsrKv
