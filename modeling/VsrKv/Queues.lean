import VsrKv.ClusterStep

/-!
# Queues

What a step does to the queue of a replica, together with its state:
`QueueChange` lists the ways. A queue gets longer only by what arrives,
and only at its end; it gets shorter at its front, by one message in a
turn, or all at once.
-/

namespace VsrKv

open Replica

/-- The replica whose queue loop makes a turn, and what the environment
supplies. -/
def Event.turn? : Event → Option (Nat × Env)
  | .tick i env => some (i, env)
  | _ => none

namespace Cluster

/-- What an event puts in a queue, and whose. -/
def arriving? (c : Cluster) : Event → Option (Nat × InboundMessage)
  | .client i fd msg => some (i, ⟨.client fd, msg⟩)
  | .deliver k => c.net[k]?.map fun p => (p.dst, p.inbound)
  | _ => none

/-- What a step may make of the state and the queue of replica `j`. -/
inductive QueueChange (c : Cluster) (ev : Event) (j : Nat) :
    ReplicaState → List InboundMessage → Prop where
  | same : QueueChange c ev j (c.state j) (c.queue j)
  | arrive (im : InboundMessage) (harrives : c.arriving? ev = some (j, im)) :
      QueueChange c ev j (c.state j) (c.queue j ++ [im])
  | discard (im : InboundMessage) (rest : List InboundMessage) (hqueue : c.queue j = im :: rest)
      (hstale : Node.isStale (c.state j) im.message = true) :
      QueueChange c ev j (c.state j) rest
  | handle (env : Env) (im : InboundMessage) (rest : List InboundMessage)
      (hqueue : c.queue j = im :: rest) (hstale : Node.isStale (c.state j) im.message = false)
      (hcan : (c.nodes j).replica.canProcess im = true) :
      QueueChange c ev j (Node.dispatch env (c.nodes j).replica im).state rest
  | enterView (hst : (c.state j).status = .normal) :
      QueueChange c ev j ((c.state j).enterNewView (u32 ((c.state j).view + 1))) (c.queue j)
  /-- On entering recovery, and in a restart. -/
  | clear (s' : ReplicaState) : QueueChange c ev j s' []

variable {c c' : Cluster} {ev : Event} {i j : Nat}

theorem queueChange_tick (c : Cluster) (ev : Event) (i : Nat) (env : Env) :
    QueueChange c ev i ((c.nodes i).tick env).replica.state
      ((c.nodes i).tick env).messageQueue := by
  have hend : ∀ b, QueueChange c ev i ((c.nodes i).endPass env b).replica.state
      ((c.nodes i).endPass env b).messageQueue := by
    intro b
    show QueueChange c ev i ((c.nodes i).reactToStuck env).replica.state
      ((c.nodes i).reactToStuck env).messageQueue
    unfold Node.reactToStuck
    split
    · exact .same
    · split
      · rename_i hst
        split
        · exact .clear _
        · exact .enterView hst
        · exact .same
      · exact .same
  unfold Node.tick
  split
  · exact .same
  · rename_i b _
    split
    · exact hend b
    · rename_i im rest hqueue
      split
      · rename_i hstale
        exact .discard im rest hqueue hstale
      · rename_i hstale
        split
        · rename_i hcan
          exact .handle env im rest hqueue (Bool.eq_false_iff.mpr hstale) hcan
        · exact hend b

theorem queue_step (h : c.step ev = some c') (j : Nat) :
    QueueChange c ev j (c'.state j) (c'.queue j) := by
  have hset : ∀ {i : Nat} {n : Node},
      (j = i → QueueChange c ev j n.replica.state n.messageQueue) →
      QueueChange c ev j ((c.setNode i n).state j) ((c.setNode i n).queue j) := by
    intro i n hi
    rw [state_setNode, queue_setNode]
    split
    · rename_i hj; exact hi hj
    · exact .same
  have hput : ∀ {i : Nat} {n : Node},
      (j = i → QueueChange c ev j n.replica.state n.messageQueue) →
      QueueChange c ev j ((c.put i n).state j) ((c.put i n).queue j) := by
    intro i n hi
    rw [state_put, queue_put]
    split
    · rename_i hj; exact hi hj
    · exact .same
  cases ev with
  | client i fd msg =>
      simp only [step, Option.ite_none_right_eq_some, Option.some.injEq] at h
      obtain ⟨-, rfl⟩ := h
      refine hset fun hj => ?_
      subst hj
      exact .arrive _ rfl
  | deliver k =>
      simp only [step, Option.bind_eq_bind, Option.bind_eq_some_iff,
        Option.ite_none_right_eq_some, Option.some.injEq] at h
      obtain ⟨p, hp, -, rfl⟩ := h
      refine hset (n := (c.nodes p.dst).enqueueMessage p.inbound) fun hj => ?_
      subst hj
      exact .arrive p.inbound (by rw [arriving?, hp]; rfl)
  | drop k | duplicate k =>
      simp only [step, Option.bind_eq_bind, Option.bind_eq_some_iff, Option.some.injEq] at h
      obtain ⟨p, -, rfl⟩ := h
      exact .same
  | start i =>
      simp only [step, Option.ite_none_right_eq_some, Option.some.injEq] at h
      obtain ⟨-, rfl⟩ := h
      refine hset fun hj => ?_
      subst hj
      exact .same
  | tick i env =>
      simp only [step, Option.ite_none_right_eq_some, Option.some.injEq] at h
      obtain ⟨-, rfl⟩ := h
      refine hput fun hj => ?_
      subst hj
      exact queueChange_tick c _ j env
  | heartbeat i =>
      simp only [step, Option.ite_none_right_eq_some, Option.some.injEq] at h
      obtain ⟨-, rfl⟩ := h
      refine hput fun hj => ?_
      subst hj
      unfold sendCommitMessageIfNeeded
      split <;> exact .same
  | timeout i =>
      simp only [step, Option.ite_none_right_eq_some, Option.some.injEq] at h
      obtain ⟨-, rfl⟩ := h
      refine hput fun hj => ?_
      subst hj
      unfold checkPrimaryLiveness
      split
      · rename_i hcond
        exact .enterView (eq_of_beq (Bool.and_eq_true_iff.mp hcond).2)
      · exact .same
  | restart i =>
      simp only [step, Option.ite_none_right_eq_some, Option.some.injEq] at h
      obtain ⟨-, rfl⟩ := h
      refine hset (n := freshNode i c.size) fun hj => ?_
      subst hj
      exact .clear _

/-- What is queued was queued before or has just arrived. -/
theorem mem_queue_step (h : c.step ev = some c') {im : InboundMessage} (him : im ∈ c'.queue j) :
    im ∈ c.queue j ∨ c.arriving? ev = some (j, im) := by
  have hchange := queue_step h j
  generalize c'.state j = s', c'.queue j = q' at hchange him
  cases hchange with
  | same | enterView => exact Or.inl him
  | arrive im' harrives =>
      refine (List.mem_append.mp him).imp_right fun hmem => ?_
      rw [List.mem_singleton.mp hmem]
      exact harrives
  | discard im' rest hqueue | handle env im' rest hqueue =>
      exact Or.inl (hqueue ▸ List.mem_cons_of_mem _ him)
  | clear => cases him

end Cluster

end VsrKv
