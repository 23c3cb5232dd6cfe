import VsrKv.Actions
import VsrKv.LogList
import VsrKv.TransitionSystem

/-!
# View and status, against any input

What a replica does with its view and status does not depend on who
sends the messages. This file runs one replica on its own, from the
state it is constructed in, under messages with arbitrary headers and
payloads, heartbeats and liveness timeouts, at the granularity of a turn
of the queue loop.

A view is left upwards only, and `VIEW_CHANGE` is entered from `NORMAL`
in the view before (`Forward`). Recovery installs a view taken from a
stored message, so the invariant (`Disciplined`) also speaks about the
messages that are stored: the filter in the queue loop let them in when
they were not older than the view, which does not move while they wait.
-/

namespace VsrKv

open Replica TransitionSystem

/-! ## What handling a message does to view and status -/

/-- What a replica's next move may rely on. -/
structure Disciplined (s : ReplicaState) : Prop where
  entered : s.status = .viewChange → s.lastNormalView + 1 = s.view
  votes : s.status = .viewChange → ∀ m ∈ s.doViewChangeReceived,
    m.header.command = .doViewChange ∧ m.header.view = s.view
  responses : s.status = .recovery → ∀ m ∈ s.recoveryResponses, s.view ≤ m.header.view

/-- How view and status may move in one step. -/
structure Forward (s s' : ReplicaState) : Prop where
  view : s.view ≤ s'.view
  changing : s'.status = .viewChange →
    s.status = .viewChange ∧ s.view = s'.view ∨ s.status = .normal ∧ s.view + 1 = s'.view

theorem Forward.rfl' (s : ReplicaState) : Forward s s :=
  ⟨Nat.le_refl _, fun h => Or.inl ⟨h, rfl⟩⟩

theorem disciplined_new (id : Nat) (config : List PeerConfig) :
    Disciplined (.new id config) where
  entered h := by simp [ReplicaState.new] at h
  votes h := by simp [ReplicaState.new] at h
  responses h := by simp [ReplicaState.new] at h

/-- A replica that is `NORMAL` has no commitments. -/
theorem Disciplined.of_normal {s : ReplicaState} (h : s.status = .normal) : Disciplined s where
  entered h' := by simp [h] at h'
  votes h' := by simp [h] at h'
  responses h' := by simp [h] at h'

theorem Forward.of_normal {s s' : ReplicaState} (h : s'.status = .normal)
    (hview : s.view ≤ s'.view) : Forward s s' :=
  ⟨hview, fun h' => by simp [h] at h'⟩

theorem Disciplined.enterNewView {s : ReplicaState} (h : s.status = .normal) :
    Disciplined (s.enterNewView (s.view + 1)) where
  entered _ := by simp [ReplicaState.enterNewView, h]
  votes _ m hm := by simp [ReplicaState.enterNewView] at hm
  responses h' := by simp [ReplicaState.enterNewView] at h'

theorem Forward.enterNewView {s : ReplicaState} (h : s.status = .normal) :
    Forward s (s.enterNewView (s.view + 1)) where
  view := Nat.le_succ _
  changing _ := Or.inr ⟨h, rfl⟩

section

variable {env : Env} {s s' : ReplicaState} {im : InboundMessage} {effs : List Effect}

theorem Acts.forward (hd : Disciplined s) (hstale : Node.isStale s im.message = false)
    (h : Acts env s im s' effs) : Forward s s' := by
  cases h with
  | accept _ _ hcmd hst _ _ _ hexec =>
      obtain ⟨n, t, m, rfl⟩ := hexec.state
      exact .of_normal hst (Nat.le_refl _)
  | acknowledge entry _ _ _ hst _ _ _ hexec =>
      obtain ⟨n, t, m, rfl⟩ := hexec.state
      exact .of_normal hst (Nat.le_refl _)
  | learn _ _ _ hst _ _ hexec =>
      obtain ⟨n, t, m, rfl⟩ := hexec.state
      exact .of_normal hst (Nat.le_refl _)
  | collect s₁ d h =>
      have hst := h.status
      cases h <;> exact ⟨Nat.le_refl _, fun _ => Or.inl ⟨hst, rfl⟩⟩
  | startView s₁ d h _ best _ _ _ hexec =>
      obtain ⟨n, t, m, rfl⟩ := hexec.state
      refine .of_normal rfl ?_
      cases h <;> exact Nat.le_refl _
  | adopt payload _ _ _ hview _ _ _ hexec =>
      obtain ⟨n, t, m, rfl⟩ := hexec.state
      exact .of_normal rfl hview.ge
  | recover payload hcmd hst _ _ first rest hresponses _ s₁ _ hexec =>
      obtain ⟨n, t, m, rfl⟩ := hexec.state
      refine .of_normal rfl ?_
      -- the view comes from a stored response or from the message just taken
      have hmem := (bestResponse_spec first rest).1
      rw [← hresponses] at hmem
      rcases List.mem_append.mp hmem with hmem | hmem
      · exact hd.responses hst _ hmem
      · change s.view ≤ (rest.foldl betterResponse first).header.view
        rw [List.mem_singleton.mp hmem]
        simpa [Node.isStale, hcmd] using hstale
  | _ => exact ⟨Nat.le_refl _, fun h => Or.inl ⟨h, rfl⟩⟩

theorem Acts.disciplined (hd : Disciplined s) (hstale : Node.isStale s im.message = false)
    (h : Acts env s im s' effs) : Disciplined s' := by
  cases h with
  | accept _ _ _ hst _ _ _ hexec =>
      obtain ⟨n, t, m, rfl⟩ := hexec.state
      exact .of_normal hst
  | acknowledge _ _ _ _ hst _ _ _ hexec =>
      obtain ⟨n, t, m, rfl⟩ := hexec.state
      exact .of_normal hst
  | learn _ _ _ hst _ _ hexec =>
      obtain ⟨n, t, m, rfl⟩ := hexec.state
      exact .of_normal hst
  | collect s₁ d h =>
      have hst := h.status
      have hheader := h.header
      have hvotes : ∀ m ∈ s.doViewChangeReceived ++ [d],
          m.header.command = .doViewChange ∧ m.header.view = s.view := by
        intro m hm
        rcases List.mem_append.mp hm with hm | hm
        · exact hd.votes hst m hm
        · rw [List.mem_singleton.mp hm]
          exact hheader
      cases h <;> exact ⟨hd.entered, fun _ => hvotes, hd.responses⟩
  | startView _ _ _ _ _ _ _ _ hexec =>
      obtain ⟨n, t, m, rfl⟩ := hexec.state
      exact .of_normal rfl
  | adopt _ _ _ _ _ _ _ _ hexec =>
      obtain ⟨n, t, m, rfl⟩ := hexec.state
      exact .of_normal rfl
  | gather payload hcmd hst hpayload hnonce =>
      refine ⟨hd.entered, hd.votes, ?_⟩
      intro _ m hm
      rcases List.mem_append.mp hm with hm | hm
      · exact hd.responses hst m hm
      · rw [List.mem_singleton.mp hm]
        simpa [Node.isStale, hcmd] using hstale
  | recover _ _ _ _ _ _ _ _ _ _ _ hexec =>
      obtain ⟨n, t, m, rfl⟩ := hexec.state
      exact .of_normal rfl
  | _ => exact ⟨hd.entered, hd.votes, hd.responses⟩

/-- The views a replica can hold or be led to stay below a bound. -/
theorem Acts.views_lt (h : Acts env s im s' effs) {b : Nat} (hview : s.view < b)
    (hresponses : ∀ m ∈ s.recoveryResponses, m.header.view < b)
    (him : im.message.header.view < b) :
    s'.view < b ∧ ∀ m ∈ s'.recoveryResponses, m.header.view < b := by
  have hall : ∀ m ∈ s.recoveryResponses ++ [im.message], m.header.view < b := by
    intro m hm
    rcases List.mem_append.mp hm with hm | hm
    · exact hresponses m hm
    · rw [List.mem_singleton.mp hm]
      exact him
  cases h with
  | accept _ _ _ _ _ _ _ hexec =>
      obtain ⟨n, t, m, rfl⟩ := hexec.state
      exact ⟨hview, hresponses⟩
  | acknowledge _ _ _ _ _ _ _ _ hexec =>
      obtain ⟨n, t, m, rfl⟩ := hexec.state
      exact ⟨hview, hresponses⟩
  | learn _ _ _ _ _ _ hexec =>
      obtain ⟨n, t, m, rfl⟩ := hexec.state
      exact ⟨hview, hresponses⟩
  | collect s₁ d h => cases h <;> exact ⟨hview, hresponses⟩
  | startView s₁ d h _ _ _ _ _ hexec =>
      obtain ⟨n, t, m, rfl⟩ := hexec.state
      cases h <;> exact ⟨hview, hresponses⟩
  | adopt _ _ _ _ _ _ _ _ hexec =>
      obtain ⟨n, t, m, rfl⟩ := hexec.state
      exact ⟨him, hresponses⟩
  | gather => exact ⟨hview, hall⟩
  | recover payload _ _ _ _ first rest hlist _ s₁ _ hexec =>
      obtain ⟨n, t, m, rfl⟩ := hexec.state
      refine ⟨hall _ ?_, by simp⟩
      rw [hlist]
      exact (bestResponse_spec first rest).1
  | _ => exact ⟨hview, hresponses⟩

end

/-! ## One replica and its inputs -/

instance (h : VsrHeader) : Decidable h.InRange :=
  decidable_of_iff
    (h.size < 2 ^ 32 ∧ h.request < 2 ^ 32 ∧ h.cluster < 2 ^ 32 ∧ h.epoch < 2 ^ 32
      ∧ h.view < 2 ^ 32 ∧ h.op < 2 ^ 64 ∧ h.commit < 2 ^ 64 ∧ h.offset < 2 ^ 64
      ∧ h.replica < 2 ^ 8 ∧ h.version < 2 ^ 8)
    ⟨fun ⟨h₁, h₂, h₃, h₄, h₅, h₆, h₇, h₈, h₉, h₁₀⟩ => ⟨h₁, h₂, h₃, h₄, h₅, h₆, h₇, h₈, h₉, h₁₀⟩,
      fun h => ⟨h.size, h.request, h.cluster, h.epoch, h.view, h.op, h.commit, h.offset,
        h.replica, h.version⟩⟩

/-- What can happen to a replica, whoever is behind it. -/
inductive Input where
  | enqueue (inbound : InboundMessage)
  | start
  | tick (env : Env)
  | heartbeat
  | timeout

namespace Node

/-- A replica as it is constructed. -/
def boot (id : Nat) (config : List PeerConfig) : Node :=
  { replica := { state := .new id config } }

/-- The node once its output is on the network. -/
def flush (n : Node) : Node := { n with replica := { n.replica with out := [] } }

/-- As for a cluster, nothing comes in and no timer fires while the queue is
being processed. A message's header holds values of its field types. -/
def step (n : Node) : Input → Option Node
  | .enqueue inbound =>
      if n.pass = none ∧ inbound.message.header.InRange then some (n.enqueueMessage inbound)
      else none
  | .start =>
      if n.pass = none ∧ 0 < n.posted then
        some { n with pass := some false, posted := n.posted - 1 }
      else none
  | .tick env => if n.pass ≠ none then some (n.tick env).flush else none
  | .heartbeat =>
      if n.pass = none then
        some (flush { n with replica := n.replica.sendCommitMessageIfNeeded })
      else none
  | .timeout =>
      if n.pass = none then
        some (flush { n with replica := n.replica.checkPrimaryLiveness })
      else none

/-- The queue loop stops at this message. -/
def stopsAt (n : Node) (inbound : InboundMessage) : Bool :=
  !isStale n.replica.state inbound.message && !n.replica.canProcess inbound

/-- The input makes the replica call `initiate_view_change`. -/
def initiatesViewChange (n : Node) : Input → Bool
  | .tick _ =>
      n.messageQueue.head?.any fun stuck =>
        n.pass.isSome && n.stopsAt stuck && n.replica.state.status == .normal
          && determineStateAction n.replica.state stuck.message == .initiateViewChange
  | .timeout => !n.replica.state.isPrimary && n.replica.state.status == .normal
  | _ => false

/-- `initiate_view_change` is not called in the last view there is. -/
def NoWrap (n : Node) (inp : Input) (_ : Node) : Prop :=
  n.initiatesViewChange inp = true → n.replica.state.view ≠ 2 ^ 32 - 1

instance (n : Node) (inp : Input) (n' : Node) : Decidable (NoWrap n inp n') :=
  inferInstanceAs (Decidable (_ → _))

/-- What an input can do to the replica's state and queue. -/
inductive Moves (n : Node) (inp : Input) (n' : Node) : Prop where
  | quiet (hstate : n'.replica.state = n.replica.state)
      (hqueue : ∀ im ∈ n'.messageQueue, im ∈ n.messageQueue ∨ im.message.header.InRange)
  | act (env : Env) (im : InboundMessage) (rest : List InboundMessage) (effs : List Effect)
      (hinp : inp = .tick env) (hqueue : n.messageQueue = im :: rest)
      (hstale : isStale n.replica.state im.message = false)
      (hacts : Acts env n.replica.state im n'.replica.state effs)
      (hrest : n'.messageQueue = rest)
  | enterView (hinit : n.initiatesViewChange inp = true)
      (hst : n.replica.state.status = .normal)
      (hstate : n'.replica.state
        = n.replica.state.enterNewView (u32 (n.replica.state.view + 1)))
      (hqueue : n'.messageQueue = n.messageQueue)
      (hcause : inp = .timeout ∨ ∃ env im rest, inp = .tick env
        ∧ n.messageQueue = im :: rest ∧ isStale n.replica.state im.message = false)
  | enterRecovery (env : Env) (im : InboundMessage) (rest : List InboundMessage)
      (nonce : UInt128) (hinp : inp = .tick env) (hqueue : n.messageQueue = im :: rest)
      (hstale : isStale n.replica.state im.message = false)
      (hst : n.replica.state.status = .normal)
      (hstate : n'.replica.state = { n.replica.state with
        status := .recovery, recoveryNonce := nonce, recoveryResponses := [] })
      (hempty : n'.messageQueue = [])

variable {n n' : Node} {inp : Input}

theorem Moves.of_endPass {env : Env} {b : Bool} (hpass : n.pass = some b)
    (hstops : ∀ im rest, n.messageQueue = im :: rest → n.stopsAt im = true) :
    Moves n (.tick env) (n.endPass env b).flush := by
  have hsame : Moves n (.tick env) { n with pass := if b then some false else none }.flush :=
    .quiet rfl fun im him => Or.inl him
  unfold endPass reactToStuck
  split
  · exact hsame
  · rename_i im rest hq
    have hstop := hstops im rest hq
    have hstale : isStale n.replica.state im.message = false := by
      simp only [stopsAt, Bool.and_eq_true, Bool.not_eq_true'] at hstop
      exact hstop.1
    split
    · rename_i hst
      split
      · refine .enterRecovery env im rest
          (generateNonce env.now n.replica.state.id n.replica.nonceCounter) rfl hq hstale hst ?_ rfl
        rw [flush, initiateRecovery, if_neg (by simp [hst])]
        rfl
      · rename_i haction
        refine .enterView ?_ hst rfl rfl (Or.inr ⟨env, im, rest, rfl, hq, hstale⟩)
        simp [initiatesViewChange, hq, hpass, hstop, hst, haction]
      · exact hsame
    · exact hsame

theorem Moves.of_tick {env : Env} (hout : n.replica.out = []) (hpass : n.pass ≠ none) :
    Moves n (.tick env) (n.tick env).flush := by
  obtain ⟨b, hb⟩ := Option.ne_none_iff_exists'.mp hpass
  unfold tick
  simp only [hb]
  split
  · rename_i hq
    exact .of_endPass hb fun im rest h => by simp [hq] at h
  · rename_i im rest hq
    split
    · refine .quiet rfl ?_
      intro im' him
      rw [hq]
      exact Or.inl (List.mem_cons_of_mem _ him)
    · rename_i hstale
      split
      · rename_i hcan
        exact .act env im rest _ rfl hq (Bool.eq_false_of_not_eq_true hstale)
          (dispatch_acts hout hcan) rfl
      · rename_i hcan
        refine .of_endPass hb ?_
        intro im' rest' h
        rw [hq] at h
        cases h
        simp [stopsAt, hstale, hcan]

theorem step_moves (hout : n.replica.out = []) (h : step n inp = some n') : Moves n inp n' := by
  cases inp with
  | enqueue inbound =>
      simp only [step, Option.ite_none_right_eq_some, Option.some.injEq] at h
      obtain ⟨⟨-, hrange⟩, rfl⟩ := h
      refine .quiet rfl ?_
      intro im him
      rcases List.mem_append.mp him with him | him
      · exact Or.inl him
      · rw [List.mem_singleton.mp him]
        exact Or.inr hrange
  | start =>
      simp only [step, Option.ite_none_right_eq_some, Option.some.injEq] at h
      obtain ⟨-, rfl⟩ := h
      exact .quiet rfl fun im him => Or.inl him
  | tick env =>
      simp only [step, Option.ite_none_right_eq_some, Option.some.injEq] at h
      obtain ⟨hpass, rfl⟩ := h
      exact .of_tick hout hpass
  | heartbeat =>
      simp only [step, Option.ite_none_right_eq_some, Option.some.injEq] at h
      obtain ⟨-, rfl⟩ := h
      refine .quiet ?_ fun im him => Or.inl him
      rw [flush, sendCommitMessageIfNeeded]
      split <;> rfl
  | timeout =>
      simp only [step, Option.ite_none_right_eq_some, Option.some.injEq] at h
      obtain ⟨-, rfl⟩ := h
      by_cases hcond : (!n.replica.state.isPrimary && n.replica.state.status == .normal) = true
      · refine .enterView hcond (eq_of_beq (Bool.and_eq_true_iff.mp hcond).2) ?_ rfl (Or.inl rfl)
        rw [flush, checkPrimaryLiveness, if_pos hcond]
        rfl
      · refine .quiet ?_ fun im him => Or.inl him
        rw [flush, checkPrimaryLiveness, if_neg hcond]

theorem step_out (hout : n.replica.out = []) (h : step n inp = some n') :
    n'.replica.out = [] := by
  cases inp with
  | enqueue inbound =>
      simp only [step, Option.ite_none_right_eq_some, Option.some.injEq] at h
      obtain ⟨-, rfl⟩ := h
      exact hout
  | start =>
      simp only [step, Option.ite_none_right_eq_some, Option.some.injEq] at h
      obtain ⟨-, rfl⟩ := h
      exact hout
  | tick env | heartbeat | timeout =>
      simp only [step, Option.ite_none_right_eq_some, Option.some.injEq] at h
      obtain ⟨-, rfl⟩ := h
      rfl

/-! ## Along a run -/

/-- What holds of a replica at every moment. -/
structure Sane (n : Node) : Prop where
  out : n.replica.out = []
  disciplined : Disciplined n.replica.state
  view : n.replica.state.view < 2 ^ 32
  responses : ∀ m ∈ n.replica.state.recoveryResponses, m.header.view < 2 ^ 32
  queue : ∀ im ∈ n.messageQueue, im.message.header.view < 2 ^ 32

theorem sane_boot (id : Nat) (config : List PeerConfig) : Sane (boot id config) where
  out := rfl
  disciplined := disciplined_new id config
  view := by simp [boot, ReplicaState.new]
  responses m hm := by simp [boot, ReplicaState.new] at hm
  queue im him := by simp [boot] at him

/-- A view the replica may leave by `initiate_view_change`. -/
theorem NoWrap.lt (hok : NoWrap n inp n') (hinit : n.initiatesViewChange inp = true)
    (hview : n.replica.state.view < 2 ^ 32) : n.replica.state.view + 1 < 2 ^ 32 := by
  have hne := hok hinit
  omega

theorem Moves.forward (h : Moves n inp n') (hsane : Sane n) (hok : NoWrap n inp n') :
    Forward n.replica.state n'.replica.state := by
  cases h with
  | quiet hstate => rw [hstate]; exact .rfl' _
  | act env im rest effs hinp hqueue hstale hacts => exact hacts.forward hsane.disciplined hstale
  | enterView hinit hst hstate =>
      rw [hstate, u32_eq (hok.lt hinit hsane.view)]
      exact .enterNewView hst
  | enterRecovery env im rest nonce hinp hqueue hstale hst hstate =>
      rw [hstate]
      exact ⟨Nat.le_refl _, fun h => by simp at h⟩

theorem Sane.step (hsane : Sane n) (h : step n inp = some n') (hok : NoWrap n inp n') :
    Sane n' := by
  have hout := step_out hsane.out h
  cases step_moves hsane.out h with
  | quiet hstate hqueue =>
      refine ⟨hout, hstate ▸ hsane.disciplined, hstate ▸ hsane.view,
        hstate ▸ hsane.responses, ?_⟩
      intro im him
      rcases hqueue im him with him | hrange
      · exact hsane.queue im him
      · exact hrange.view
  | act env im rest effs hinp hqueue hstale hacts hrest =>
      have hviews := hacts.views_lt hsane.view hsane.responses
        (hsane.queue im (by simp [hqueue]))
      refine ⟨hout, hacts.disciplined hsane.disciplined hstale, hviews.1, hviews.2, ?_⟩
      intro im' him
      rw [hrest] at him
      exact hsane.queue im' (by simp [hqueue, him])
  | enterView hinit hst hstate hqueue =>
      have hlt := hok.lt hinit hsane.view
      rw [u32_eq hlt] at hstate
      refine ⟨hout, ?_, ?_, ?_, ?_⟩
      · rw [hstate]; exact .enterNewView hst
      · rw [hstate]; exact hlt
      · rw [hstate]; exact hsane.responses
      · rw [hqueue]; exact hsane.queue
  | enterRecovery env im rest nonce hinp hqueue hstale hst hstate hempty =>
      refine ⟨hout, ?_, ?_, ?_, ?_⟩
      · rw [hstate]
        exact ⟨fun h => by simp at h, fun h => by simp at h, fun _ m hm => by simp at hm⟩
      · rw [hstate]; exact hsane.view
      · rw [hstate]; intro m hm; simp at hm
      · rw [hempty]; intro im him; simp at him

variable {id : Nat} {config : List PeerConfig}

theorem sane_run (run : Steps step NoWrap (boot id config) n) : Sane n :=
  run.invariant (sane_boot id config) fun _ _ _ _ hstep hok h => h.step hstep hok

/-- `n` has been reached from `n₀` through a step that entered its view, and
`VIEW_CHANGE`, from `NORMAL` in the view before. -/
def EnteredFromNormal (n₀ n : Node) : Prop :=
  ∃ m inp m', Steps step NoWrap n₀ m ∧ step m inp = some m' ∧ Steps step NoWrap m' n
    ∧ m.replica.state.status = .normal ∧ m.replica.state.view + 1 = n.replica.state.view
    ∧ m'.replica.state.status = .viewChange ∧ m'.replica.state.view = n.replica.state.view

theorem enteredFromNormal_run (run : Steps step NoWrap (boot id config) n)
    (hst : n.replica.state.status = .viewChange) : EnteredFromNormal (boot id config) n := by
  refine run.invariant (I := fun n => n.replica.state.status = .viewChange →
    EnteredFromNormal (boot id config) n) ?_ ?_ hst
  · intro h
    simp [boot, ReplicaState.new] at h
  · intro m inp m' run hstep hok ih hst
    have hsane := sane_run run
    rcases ((step_moves hsane.out hstep).forward hsane hok).changing hst with
      ⟨hst', hview⟩ | ⟨hst', hview⟩
    · obtain ⟨k, inp₀, k', run₀, hstep₀, run₁, hnormal, hview₀, hchanging, hview₁⟩ := ih hst'
      exact ⟨k, inp₀, k', run₀, hstep₀, .tail run₁ hstep hok, hnormal, hview₀.trans hview,
        hchanging, hview₁.trans hview⟩
    · exact ⟨m, inp, m', run, hstep, .refl m', hst', hview, hst, rfl⟩

theorem view_le_run (hsane : Sane n) (run : Steps step NoWrap n n') :
    n.replica.state.view ≤ n'.replica.state.view := by
  have h : Sane n' ∧ n.replica.state.view ≤ n'.replica.state.view := by
    refine run.invariant (I := fun m => Sane m ∧ n.replica.state.view ≤ m.replica.state.view)
      ⟨hsane, Nat.le_refl _⟩ ?_
    intro m inp m' _ hstep hok h
    exact ⟨h.1.step hstep hok,
      h.2.trans ((step_moves h.1.out hstep).forward h.1 hok).view⟩
  exact h.2

/-- A view in which the replica has been `NORMAL` is over for good once the
replica is in `VIEW_CHANGE`. -/
theorem left_for_good (hsane : Sane n) (hst : n.replica.state.status = .normal)
    (run : Steps step NoWrap n n') :
    n'.replica.state.status = .viewChange →
      n.replica.state.view < n'.replica.state.view := by
  have h : Sane n' ∧ n.replica.state.view ≤ n'.replica.state.view
      ∧ (n'.replica.state.status = .viewChange →
        n.replica.state.view < n'.replica.state.view) := by
    refine run.invariant (I := fun m => Sane m ∧ n.replica.state.view ≤ m.replica.state.view
      ∧ (m.replica.state.status = .viewChange →
        n.replica.state.view < m.replica.state.view)) ⟨hsane, Nat.le_refl _, ?_⟩ ?_
    · intro h
      simp [hst] at h
    · intro m inp m' _ hstep hok ⟨hm, hle, hlt⟩
      have hforward := (step_moves hm.out hstep).forward hm hok
      refine ⟨hm.step hstep hok, hle.trans hforward.view, ?_⟩
      intro hchanging
      rcases hforward.changing hchanging with ⟨hst', hview⟩ | ⟨hst', hview⟩
      · have := hlt hst'
        omega
      · omega
  exact h.2.2

/-- What changes a replica's state is a timeout, or the message at the head of
its queue, which is then a request, a recovery, or not older than the view. -/
theorem cause_of_change (hsane : Sane n) (h : step n inp = some n') :
    n'.replica.state = n.replica.state ∨ inp = .timeout
      ∨ ∃ env im rest, inp = .tick env ∧ n.messageQueue = im :: rest
        ∧ (im.message.header.command = .request ∨ im.message.header.command = .recovery
          ∨ n.replica.state.view ≤ im.message.header.view) := by
  have hfresh : ∀ im : InboundMessage, isStale n.replica.state im.message = false →
      im.message.header.command = .request ∨ im.message.header.command = .recovery
        ∨ n.replica.state.view ≤ im.message.header.view := by
    intro im hstale
    by_cases hreq : im.message.header.command = .request
    · exact Or.inl hreq
    · by_cases hrec : im.message.header.command = .recovery
      · exact Or.inr (Or.inl hrec)
      · exact Or.inr (Or.inr (by simpa [isStale, hreq, hrec] using hstale))
  cases step_moves hsane.out h with
  | quiet hstate => exact Or.inl hstate
  | act env im rest effs hinp hqueue hstale =>
      exact Or.inr (Or.inr ⟨env, im, rest, hinp, hqueue, hfresh im hstale⟩)
  | enterView _ _ _ _ hcause =>
      rcases hcause with hinp | ⟨env, im, rest, hinp, hqueue, hstale⟩
      · exact Or.inr (Or.inl hinp)
      · exact Or.inr (Or.inr ⟨env, im, rest, hinp, hqueue, hfresh im hstale⟩)
  | enterRecovery env im rest nonce hinp hqueue hstale =>
      exact Or.inr (Or.inr ⟨env, im, rest, hinp, hqueue, hfresh im hstale⟩)

/-- For any two moments of any run of one replica: the view has not gone
back; `VIEW_CHANGE` is entered from `NORMAL` in the preceding view, which is
`last_normal_view_`; a view the replica was `NORMAL` in does not see it in
`VIEW_CHANGE` any more; and an old message, requests and recoveries apart, is
dropped without a trace in `ReplicaState`, as every change has another cause. -/
theorem view_and_status_discipline (run : Steps step NoWrap (boot id config) n)
    (run' : Steps step NoWrap n n') :
    n.replica.state.view ≤ n'.replica.state.view
      ∧ (n'.replica.state.status = .viewChange →
        n'.replica.state.lastNormalView + 1 = n'.replica.state.view
          ∧ EnteredFromNormal (boot id config) n')
      ∧ (n.replica.state.status = .normal → n'.replica.state.status = .viewChange →
        n'.replica.state.view ≠ n.replica.state.view)
      ∧ (∀ env im rest n'', n'.messageQueue = im :: rest →
        im.message.header.command ≠ .request → im.message.header.command ≠ .recovery →
        im.message.header.view < n'.replica.state.view →
        step n' (.tick env) = some n'' → n''.replica.state = n'.replica.state)
      ∧ ∀ inp n'', step n' inp = some n'' →
        n''.replica.state = n'.replica.state ∨ inp = .timeout
          ∨ ∃ env im rest, inp = .tick env ∧ n'.messageQueue = im :: rest
            ∧ (im.message.header.command = .request ∨ im.message.header.command = .recovery
              ∨ n'.replica.state.view ≤ im.message.header.view) := by
  have hsane := sane_run run
  have run₀ : Steps step NoWrap (boot id config) n' := run.trans run'
  have hsane' := sane_run run₀
  refine ⟨view_le_run hsane run', ?_, ?_, ?_, ?_⟩
  · intro hst
    exact ⟨hsane'.disciplined.entered hst, enteredFromNormal_run run₀ hst⟩
  · intro hst hst'
    have := left_for_good hsane hst run' hst'
    omega
  · intro env im rest n'' hqueue hreq hrec hold hstep
    rcases cause_of_change hsane' hstep with h | h | ⟨_, im', rest', -, hqueue', hnew⟩
    · exact h
    · cases h
    · rw [hqueue] at hqueue'
      cases hqueue'
      rcases hnew with h | h | h
      · exact absurd h hreq
      · exact absurd h hrec
      · omega
  · intro inp n'' hstep
    exact cause_of_change hsane' hstep

/-- A backup that times out, and then gets a `Commit` of the view it left. -/
theorem view_and_status_discipline_timeout :
    ∃ n', Steps step NoWrap (boot 1 (clusterOf 3)) n'
      ∧ n'.replica.state.status = .viewChange ∧ n'.replica.state.view = 1
      ∧ n'.replica.state.lastNormalView + 1 = n'.replica.state.view
      ∧ EnteredFromNormal (boot 1 (clusterOf 3)) n' := by
  obtain ⟨n', run, hst, hview⟩ := exists_of_replay step NoWrap (boot 1 (clusterOf 3))
    [.timeout, .enqueue ⟨.peer 0, { header := { command := .commit, commit := 7 } }⟩, .start,
      .tick {}]
    (P := fun n => n.replica.state.status = .viewChange ∧ n.replica.state.view = 1) (by decide)
  obtain ⟨-, hentered, -⟩ := view_and_status_discipline (.refl _) run
  exact ⟨n', run, hst, hview, hentered hst⟩

end Node

end VsrKv
