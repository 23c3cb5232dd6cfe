import VsrKv.FrameLimit
import VsrKv.Runs

/-!
# A replica acts, and the others wait

What a schedule is put together from, where the question is what a
cluster can do. A replica with nothing to do takes one message and makes
the turns of its queue, or one of its timers fires; in either case it is
idle again afterwards, what it has sent is on the network, and nothing
else has changed (`Acted`).

Such a schedule is one of the replicas in `up`: the others are left
alone, as they are if they have crashed. What is sent is short enough to
be received, and the clock and the uninitialised payload are whatever
they happen to be (`Within`).
-/

namespace VsrKv

open Replica TransitionSystem

/-- The replica that acts, or whose process ends. -/
def Event.acts? : Event → Option Nat
  | .start i | .tick i _ | .heartbeat i | .timeout i | .restart i => some i
  | _ => none

/-- The answer that an effect hands to the network, and where to. -/
def Effect.answer? : Effect → Option (Connection × VsrMessage)
  | .toConnection conn m => if m.header.command = .reply then some (conn, m) else none
  | _ => none

/-- Outside a view change and away from recovery no log goes out. -/
theorem FitsFrame.of_normal {u : Nat} {s : ReplicaState} {msg : VsrMessage}
    (hst : s.status = .normal) (hcmd : msg.header.command ≠ .recovery)
    (hrequest : msg.header.command = .request → msg.payload.length ≤ maxPayload) :
    FitsFrame u s msg where
  request := hrequest
  vote hcan := by simp [checkCanProcessStartViewChange, hst] at hcan
  start hcan := by simp [checkCanProcessDoViewChange, hst] at hcan
  response h := absurd h hcmd

namespace Cluster

/-- A step in which only replicas in `up` act, and nothing reaches the others. No replica is
restarted, no packet duplicated, and what is sent fits a frame. -/
structure Within (env : Env) (up : Finset Nat) (c : Cluster) (ev : Event) (c' : Cluster) :
    Prop where
  acts : ∀ i ∈ ev.acts?, i ∈ up
  env : ∀ turn ∈ ev.turn?, turn.2 = env
  once : ev.isDuplicate = false
  restart : ev.restarted? = none
  frames : FramesFit c ev c'
  nodes : ∀ i, i ∉ up → c'.nodes i = c.nodes i
  net : ∀ p ∈ c.net, p.dst ∉ up → p ∈ c'.net

theorem Within.mono {env : Env} {up up' : Finset Nat} (hsub : up ⊆ up') {c c' : Cluster}
    {ev : Event} (h : Within env up c ev c') : Within env up' c ev c' where
  acts i hi := hsub (h.acts i hi)
  env := h.env
  once := h.once
  restart := h.restart
  frames := h.frames
  nodes i hi := h.nodes i fun hup => hi (hsub hup)
  net p hp hdst := h.net p hp fun hup => hdst (hsub hup)

/-- A replica that has nothing to do. -/
structure Idle (n : Node) : Prop where
  queue : n.messageQueue = []
  pass : n.pass = none
  out : n.replica.out = []

/-- Replica `j` has become `r` and is idle again. What it took off the network, if
anything, is `taken`. -/
structure Acted (c : Cluster) (j : Nat) (taken : Option InboundMessage) (r : Replica)
    (c' : Cluster) : Prop where
  size : c'.size = c.size
  node : c'.nodes j = { c.nodes j with replica := { r with out := [] } }
  others : ∀ i, i ≠ j → c'.nodes i = c.nodes i
  net : ∀ p ∈ c.net, (∀ im ∈ taken, p ≠ ⟨j, im⟩) → p ∈ c'.net
  sent : ∀ eff ∈ r.out, ∀ p ∈ eff.packets j (peers r.state), p ∈ c'.net
  trace : c'.trace = c.trace ++ r.out.map (j, ·)

/-- The answers that have left replica `i`, and where to. -/
def replies (c : Cluster) (i : Nat) : List (Connection × VsrMessage) :=
  (c.history i).filterMap Effect.answer?

variable {c c' : Cluster} {up : Finset Nat} {i j : Nat} {im : InboundMessage} {r : Replica}
  {taken : Option InboundMessage} {env : Env}

namespace Acted

theorem idle (h : Acted c j taken r c') (hidle : Idle (c.nodes j)) : Idle (c'.nodes j) := by
  rw [h.node]
  exact ⟨hidle.queue, hidle.pass, rfl⟩

theorem state (h : Acted c j taken r c') : c'.state j = r.state := by
  rw [Cluster.state, h.node]

theorem state_ne (h : Acted c j taken r c') (hij : i ≠ j) : c'.state i = c.state i := by
  rw [Cluster.state, h.others i hij]
  rfl

theorem replies_self (h : Acted c j taken r c') :
    replies c' j = replies c j ++ r.out.filterMap Effect.answer? := by
  rw [replies, history_append h.trace, if_pos rfl, List.filterMap_append, replies]

theorem replies_ne (h : Acted c j taken r c') (hij : i ≠ j) : replies c' i = replies c i := by
  rw [replies, history_append h.trace, if_neg hij, replies]

/-- What is on its way to another replica stays there. -/
theorem net_ne (h : Acted c j taken r c') {p : Packet} (hp : p ∈ c.net) (hdst : p.dst ≠ j) :
    p ∈ c'.net :=
  h.net p hp fun _ _ heq => hdst (by rw [heq])

theorem sent_broadcast (h : Acted c j taken r c') {m : VsrMessage} (hm : .broadcast m ∈ r.out)
    (hi : i ∈ peers r.state) : ⟨i, .peer j, m⟩ ∈ c'.net :=
  h.sent _ hm _ (List.mem_map.mpr ⟨i, hi, rfl⟩)

theorem sent_toPeer (h : Acted c j taken r c') {m : VsrMessage} (hm : .toPeer i m ∈ r.out)
    (hi : i ∈ peers r.state) : ⟨i, .peer j, m⟩ ∈ c'.net :=
  h.sent _ hm _ (by rw [Effect.packets, if_pos hi]; exact List.mem_singleton_self _)

end Acted

/-! ## A message -/

section

variable {ev : Event} (hup : j ∈ up) (hnodes : ∀ i, i ≠ j → c'.nodes i = c.nodes i)
  (hnet : ∀ p ∈ c.net, p.dst ≠ j → p ∈ c'.net)

include hup hnodes hnet

/-- A step of `j`, or a message for it, and not a turn of its queue. -/
theorem Within.of_one (hacts : ∀ i ∈ ev.acts?, i = j) (hturn : ev.turn? = none)
    (honce : ev.isDuplicate = false) (hrestart : ev.restarted? = none) :
    Within env up c ev c' where
  acts i hi := hacts i hi ▸ hup
  env turn hmem := by
    rw [hturn] at hmem
    cases hmem
  once := honce
  restart := hrestart
  frames turn hmem := by
    rw [hturn] at hmem
    cases hmem
  nodes i hi := hnodes i fun heq => hi (heq ▸ hup)
  net p hp hdst := hnet p hp fun heq => hdst (heq ▸ hup)

theorem Within.of_tick (hfits : ∀ im ∈ (c.queue j).head?,
    FitsFrame env.uninitialized (c.state j) im.message) : Within env up c (.tick j env) c' where
  acts i hi := Option.some.inj hi ▸ hup
  env turn hmem := by rw [← Option.some.inj hmem]
  once := rfl
  restart := rfl
  frames turn hmem := by
    obtain rfl := Option.some.inj hmem
    exact hfits
  nodes i hi := hnodes i fun heq => hi (heq ▸ hup)
  net p hp hdst := hnet p hp fun heq => hdst (heq ▸ hup)

end

/-- What `j` comes to when it has a message on its queue and begins to run it. -/
theorem exists_begun (posted : Nat) (hj : j < c.size) (hup : j ∈ up)
    (hn : c.nodes j = { replica := r, messageQueue := [im], posted := posted + 1 }) :
    Steps step (Within env up) c
      (c.setNode j { replica := r, messageQueue := [im], posted, pass := some false }) := by
  have hstep : c.step (.start j)
      = some (c.setNode j { replica := r, messageQueue := [im], posted, pass := some false }) := by
    simp [step, hj, hn]
  refine .head hstep (.of_one hup (fun i hi => by simp [setNode, hi]) (fun p hp _ => hp)
    (fun i hi => (Option.some.inj hi).symm) rfl rfl rfl) (.refl _)

/-- Three turns: the message, a pass that finds nothing more, and the last. -/
theorem steps_process (posted : Nat) (hj : j < c.size) (hup : j ∈ up)
    (hn : c.nodes j = { replica := r, messageQueue := [im], posted := posted + 1 })
    (hstale : Node.isStale r.state im.message = false) (hcan : r.canProcess im = true)
    (hfits : FitsFrame env.uninitialized r.state im.message) :
    Steps step (Within env up) c (c.put j { replica := Node.dispatch env r im, posted }) := by
  let begun : Node := { replica := r, messageQueue := [im], posted, pass := some false }
  let done : Node := { replica := Node.dispatch env r im, posted }
  have h₁ : (c.setNode j begun).step (.tick j env)
      = some (c.put j { done with pass := some true }) := by
    simp [step, setNode, put, peers, begun, done, hj, Node.tick, hstale, hcan]
  have h₂ : (c.put j { done with pass := some true }).step (.tick j env)
      = some (c.put j { done with pass := some false }) := by
    simp [step, put, done, hj, Node.tick, Node.endPass, Node.reactToStuck]
  have h₃ : (c.put j { done with pass := some false }).step (.tick j env)
      = some (c.put j done) := by
    simp [step, put, done, hj, Node.tick, Node.endPass, Node.reactToStuck]
  have hhead : ∀ im' ∈ ((c.setNode j begun).queue j).head?,
      FitsFrame env.uninitialized ((c.setNode j begun).state j) im'.message := by
    simp only [queue_setNode, state_setNode, if_true, begun, List.head?_cons, Option.mem_some_iff]
    exact fun im' him => him ▸ hfits
  have hempty : ∀ b : Bool, ∀ im' ∈ ((c.put j { done with pass := some b }).queue j).head?,
      FitsFrame env.uninitialized ((c.put j { done with pass := some b }).state j) im'.message := by
    simp [queue_put, done]
  refine (exists_begun posted hj hup hn).trans <|
    .head h₁ (.of_tick hup ?_ ?_ hhead) <| .head h₂ (.of_tick hup ?_ ?_ (hempty true)) <|
    .head h₃ (.of_tick hup ?_ ?_ (hempty false)) <| .refl _
  all_goals simp +contextual [setNode, put]

/-- What has become of a replica with a message on its queue once it has dealt with it. -/
theorem acted_of_enqueued {r' : Replica} (net : List Packet) (hidle : Idle (c.nodes j))
    (hnet : ∀ p ∈ c.net, (∀ im' ∈ taken, p ≠ ⟨j, im'⟩) → p ∈ net) :
    Acted c j taken r' (Cluster.put { c.setNode j ((c.nodes j).enqueueMessage im) with net := net }
      j { replica := r', posted := (c.nodes j).posted }) := by
  refine ⟨rfl, ?_, ?_, ?_, ?_, rfl⟩
  · simp [put, hidle.queue, hidle.pass]
  · intro i hi
    simp [put, setNode, hi]
  · intro p hp hne
    exact List.mem_append_left _ (hnet p hp hne)
  · intro eff heff p hp
    exact List.mem_append_right _ (List.mem_flatMap.mpr ⟨eff, heff, hp⟩)

theorem Idle.enqueued (hidle : Idle (c.nodes j)) (im : InboundMessage) (net : List Packet) :
    ({ c.setNode j ((c.nodes j).enqueueMessage im) with net := net } : Cluster).nodes j
      = { replica := (c.nodes j).replica, messageQueue := [im],
          posted := (c.nodes j).posted + 1 } := by
  simp [setNode, Node.enqueueMessage, hidle.queue, hidle.pass]

/-- A packet is delivered, and the message processed. -/
theorem exists_delivered (env : Env) {p : Packet} (hmem : p ∈ c.net) (hj : p.dst < c.size)
    (hup : p.dst ∈ up) (hidle : Idle (c.nodes p.dst))
    (hstale : Node.isStale (c.state p.dst) p.inbound.message = false)
    (hcan : (c.nodes p.dst).replica.canProcess p.inbound = true)
    (hfits : FitsFrame env.uninitialized (c.state p.dst) p.inbound.message) :
    ∃ c', Steps step (Within env up) c c' ∧ Acted c p.dst (some p.inbound)
      (Node.dispatch env (c.nodes p.dst).replica p.inbound) c' := by
  obtain ⟨k, hk⟩ := List.getElem?_of_mem hmem
  have hnet : ∀ q ∈ c.net, q ≠ p → q ∈ c.net.eraseIdx k := by
    intro q hq hne
    obtain ⟨i, hi⟩ := List.getElem?_of_mem hq
    refine List.mem_eraseIdx_iff_getElem?.mpr ⟨i, fun heq => hne ?_, hi⟩
    subst heq
    exact Option.some.inj (hi.symm.trans hk)
  have hstep : c.step (.deliver k) = some { c.setNode p.dst
      ((c.nodes p.dst).enqueueMessage p.inbound) with net := c.net.eraseIdx k } := by
    simp [step, hk, hj, hidle.pass]
  refine ⟨_, .head hstep (.of_one hup (fun i hi => ?_) (fun q hq hdst => ?_)
    (fun i hi => by cases hi) rfl rfl rfl)
    (steps_process _ hj hup (hidle.enqueued _ _) hstale hcan hfits),
    acted_of_enqueued _ hidle fun q hq hne => hnet q hq (hne _ rfl)⟩
  · simp [setNode, hi]
  · exact hnet q hq fun heq => hdst (by rw [heq])

theorem exists_requested (env : Env) {fd : Nat} {msg : VsrMessage} (hj : j < c.size) (hup : j ∈ up)
    (hidle : Idle (c.nodes j)) (hmsg : isClientMessage msg = true)
    (hstale : Node.isStale (c.state j) msg = false)
    (hcan : (c.nodes j).replica.canProcess ⟨.client fd, msg⟩ = true)
    (hfits : FitsFrame env.uninitialized (c.state j) msg) :
    ∃ c', Steps step (Within env up) c c' ∧ Acted c j none
      (Node.dispatch env (c.nodes j).replica ⟨.client fd, msg⟩) c' := by
  have hstep : c.step (.client j fd msg) = some { c.setNode j
      ((c.nodes j).enqueueMessage ⟨.client fd, msg⟩) with net := c.net } := by
    simp [step, hj, hidle.pass, hmsg]
    rfl
  exact ⟨_, .head hstep (.of_one hup (fun i hi => by simp [setNode, hi]) (fun p hp _ => hp)
    (fun i hi => by cases hi) rfl rfl rfl)
    (steps_process _ hj hup (hidle.enqueued _ _) hstale hcan hfits),
    acted_of_enqueued _ hidle fun p hp _ => hp⟩

/-! ## A timer -/

/-- A timer fires, and runs `fire` on the replica. -/
theorem exists_fired {ev : Event} {fire : Replica → Replica} (hup : j ∈ up)
    (hev : ev.acts? = some j) (hturn : ev.turn? = none) (honce : ev.isDuplicate = false)
    (hrestart : ev.restarted? = none)
    (hstep : c.step ev
      = some (c.put j { c.nodes j with replica := fire (c.nodes j).replica })) :
    ∃ c', Steps step (Within env up) c c' ∧ Acted c j none (fire (c.nodes j).replica) c' := by
  refine ⟨_, .head hstep (.of_one hup (fun i hi => by simp [put, hi])
    (fun p hp _ => List.mem_append_left _ hp) (fun i hi => ?_) hturn honce hrestart) (.refl _),
    rfl, ?_, ?_, ?_, ?_, rfl⟩
  · rw [hev] at hi
    exact (Option.some.inj hi).symm
  · simp [put]
  · intro i hi
    simp [put, hi]
  · intro p hp _
    exact List.mem_append_left _ hp
  · intro eff heff p hp
    exact List.mem_append_right _ (List.mem_flatMap.mpr ⟨eff, heff, hp⟩)

theorem exists_heartbeat (env : Env) (hj : j < c.size) (hup : j ∈ up) (hidle : Idle (c.nodes j)) :
    ∃ c', Steps step (Within env up) c c'
      ∧ Acted c j none (c.nodes j).replica.sendCommitMessageIfNeeded c' :=
  exists_fired hup rfl rfl rfl rfl (show c.step (.heartbeat j) = _ by simp [step, hj, hidle.pass])

theorem exists_timeout (env : Env) (hj : j < c.size) (hup : j ∈ up) (hidle : Idle (c.nodes j)) :
    ∃ c', Steps step (Within env up) c c'
      ∧ Acted c j none (c.nodes j).replica.checkPrimaryLiveness c' :=
  exists_fired hup rfl rfl rfl rfl (show c.step (.timeout j) = _ by simp [step, hj, hidle.pass])

end Cluster

end VsrKv
