import VsrKv.Silence

/-!
# Replicas that forget

A restart costs a replica its log, and the other replicas do not learn of
it: to them it stands by all it has acknowledged. Whether that does harm
depends on what the replica does before it has recovered. To say so, a
run is followed here by a record that the program does not keep, of what
each such replica had (`lost`).

`Careful` is what is asked of such runs. Until it has recovered, a
replica that has forgotten its log must not speak for it, and its
recovery has to bring back what it had. Put what it had back in its place
(`restored`), and it is a replica that has merely been silent.
-/

namespace VsrKv

open Replica TransitionSystem

/-- What the other replicas may count on: not who has acknowledged what to this one, and
not that it is in recovery, which it will not hear of again. -/
def ReplicaState.kept (s : ReplicaState) : ReplicaState :=
  { s with
    status := if s.status = .recovery then .normal else s.status
    log := stripLog s.log
    recoveryNonce := {}
    recoveryResponses := [] }

/-- A cluster, and what those of its replicas had that have forgotten it. -/
structure Forgetful where
  cluster : Cluster
  lost : Nat → Option ReplicaState

namespace Forgetful

def init (n : Nat) : Forgetful := ⟨Cluster.init n, fun _ => none⟩

/-- A replica that restarts forgets, unless it has nothing yet, and a recovery that
completes ends that. -/
def lostAfter (r : Forgetful) (ev : Event) (c' : Cluster) (i : Nat) : Option ReplicaState :=
  if ev.restarted? = some i then
    if (r.cluster.state i).Pristine then r.lost i else some (r.cluster.state i).kept
  else if (r.cluster.state i).status = .recovery ∧ (c'.state i).status = .normal then none
  else r.lost i

def step (r : Forgetful) (ev : Event) : Option Forgetful :=
  (r.cluster.step ev).map fun c' => ⟨c', r.lostAfter ev c'⟩

/-- The cluster as it would be had nobody forgotten anything. -/
def restored (r : Forgetful) : Cluster :=
  { r.cluster with
    nodes := fun i =>
      let n := r.cluster.nodes i
      { n with replica := { n.replica with state := (r.lost i).getD n.replica.state } } }

/-- Replica `i` with what it had, and the responses it has now. -/
def had (r : Forgetful) (i : Nat) : ReplicaState :=
  { r.restored.state i with recoveryResponses := (r.cluster.state i).recoveryResponses }

/-- If the turn the event makes completes a recovery, some response has what the replica
had. In a cluster of three that is only asked of a replica that has forgotten. -/
def CoversLogs (r : Forgetful) (ev : Event) : Prop :=
  ∀ i ∈ ev.ticked?, ∀ im ∈ (r.cluster.queue i).head?,
    completesRecovery (r.cluster.state i) im.message = true →
      r.cluster.size = 3 ∧ (r.lost i).isNone ∨ RecoveryCovers (r.had i) im.message

instance (r : Forgetful) (ev : Event) : Decidable (r.CoversLogs ev) :=
  inferInstanceAs (Decidable (∀ i ∈ ev.ticked?, ∀ im ∈ (r.cluster.queue i).head?, _ → _))

/-- A step without duplicates, with unique nonces and no counter near its end, in which no
replica that has forgotten its log speaks for it, and every recovery that completes is
covered. -/
structure Careful (r : Forgetful) (ev : Event) (r' : Forgetful) : Prop where
  once : ev.isDuplicate = false
  nonces : r.cluster.FreshNonces r'.cluster
  range : r'.cluster.InRange
  silent : ∀ x ∈ r'.cluster.trace.drop r.cluster.trace.length,
    (r.lost x.1).isSome → x.2.speaksForLog = false
  covered : r.CoversLogs ev

instance (r : Forgetful) (ev : Event) (r' : Forgetful) : Decidable (Careful r ev r') :=
  decidable_of_iff
    (ev.isDuplicate = false ∧ r.cluster.FreshNonces r'.cluster ∧ r'.cluster.InRange
      ∧ (∀ x ∈ r'.cluster.trace.drop r.cluster.trace.length,
        (r.lost x.1).isSome → x.2.speaksForLog = false) ∧ r.CoversLogs ev)
    ⟨fun ⟨h₁, h₂, h₃, h₄, h₅⟩ => ⟨h₁, h₂, h₃, h₄, h₅⟩,
      fun ⟨h₁, h₂, h₃, h₄, h₅⟩ => ⟨h₁, h₂, h₃, h₄, h₅⟩⟩

abbrev Run : Forgetful → Forgetful → Prop := Steps step Careful

/-! ## The restored cluster -/

section

variable {r r' : Forgetful} {ev : Event} {i : Nat}

theorem state_restored (r : Forgetful) (i : Nat) :
    r.restored.state i = (r.lost i).getD (r.cluster.state i) := rfl

theorem nodes_restored (h : r.lost i = none) : r.restored.nodes i = r.cluster.nodes i := by
  simp only [restored, h]
  rfl

theorem state_of_kept (h : r.lost i = none) : r.restored.state i = r.cluster.state i := by
  rw [state_restored, h]
  rfl

theorem state_of_lost {s : ReplicaState} (h : r.lost i = some s) : r.restored.state i = s := by
  rw [state_restored, h]
  rfl

/-- What was lost stays lost, or is no longer missed. -/
def Forgets (r r' : Forgetful) : Prop := ∀ i s, r'.lost i = some s → r.lost i = some s

theorem Forgets.state (h : Forgets r r') (i : Nat) :
    r'.restored.state i = r.restored.state i ∨ r'.lost i = none := by
  cases hlost : r'.lost i with
  | none => exact Or.inr rfl
  | some s => exact Or.inl (by rw [state_of_lost hlost, state_of_lost (h i s hlost)])

theorem static_restored (h : r.cluster.Static) (hlost : ∀ i s, r.lost i = some s →
    SameConfig (.new i (clusterOf r.cluster.size)) s) : r.restored.Static := by
  have hsame : ∀ i, SameConfig (.new i (clusterOf r.cluster.size)) (r.restored.state i) := by
    intro i
    cases hi : r.lost i with
    | none => exact state_of_kept hi ▸ h.sameConfig i
    | some s => exact state_of_lost hi ▸ hlost i s hi
  refine ⟨fun i => (hsame i).id, fun i => ?_, fun i => (hsame i).config, h.out⟩
  rw [(hsame i).f, ReplicaState.new, length_clusterOf]
  rfl

theorem Forgets.static (h : Forgets r r') (hsize : r'.cluster.size = r.cluster.size)
    (hstatic : r.restored.Static) (hstatic' : r'.cluster.Static) : r'.restored.Static := by
  refine static_restored hstatic' fun i s hs => ?_
  rw [hsize, ← state_of_lost (h i s hs)]
  exact hstatic.sameConfig i

theorem Forgets.inRange (h : Forgets r r') (hsize : r'.cluster.size = r.cluster.size)
    (hrange : r.restored.InRange) (hrange' : r'.cluster.InRange) : r'.restored.InRange := by
  intro i hi
  rcases h.state i with hsame | hnone
  · exact hsame ▸ hrange i (hsize ▸ hi)
  · exact state_of_kept hnone ▸ hrange' i hi

/-- A step of one replica is one in the restored cluster. -/
theorem local_restored {t : ReplicaState} {q : List InboundMessage} {effs : List Effect}
    (hlocal : r.cluster.Local r'.cluster i t q effs) (hlost : ∀ j, j ≠ i → r'.lost j = r.lost j)
    (hstatic : r'.cluster.Static) (hstatic' : r'.restored.Static) :
    r.restored.Local r'.restored i (r'.restored.state i) q effs where
  size := hlocal.size
  lt := hlocal.lt
  state_self := rfl
  state_ne j hj := by rw [state_restored, state_restored, hlost j hj, hlocal.state_ne j hj]
  queue_self := hlocal.queue_self
  queue_ne := hlocal.queue_ne
  net := by
    have hpeers : Cluster.peers (r'.restored.state i) = Cluster.peers t := by
      rw [(hstatic'.sameConfig i).peers_eq, ← hlocal.state_self]
      exact (hstatic.sameConfig i).peers_eq.symm
    rw [hpeers]
    exact hlocal.net
  trace := hlocal.trace

/-- If the replica has forgotten nothing, it is in the same state there. -/
theorem local_of_kept {t : ReplicaState} {q : List InboundMessage} {effs : List Effect}
    (hlocal : r.cluster.Local r'.cluster i t q effs) (hi : r'.lost i = none)
    (hlost : ∀ j, j ≠ i → r'.lost j = r.lost j) (hstatic : r'.cluster.Static)
    (hstatic' : r'.restored.Static) : r.restored.Local r'.restored i t q effs := by
  have h := local_restored hlocal hlost hstatic hstatic'
  rwa [state_of_kept hi, hlocal.state_self] at h

theorem had_of_kept (h : r.lost i = none) : r.had i = r.cluster.state i := by
  rw [had, state_of_kept h]

/-! ## What is forgotten when -/

theorem of_step (h : r.step ev = some r') :
    r.cluster.step ev = some r'.cluster ∧ r'.lost = r.lostAfter ev r'.cluster := by
  obtain ⟨c', hc, rfl⟩ := Option.map_eq_some_iff.mp h
  exact ⟨hc, rfl⟩

theorem lost_of_same (hlost : r'.lost = r.lostAfter ev r'.cluster)
    (hev : ev.restarted? ≠ some i) (hsame : r'.cluster.state i = r.cluster.state i) :
    r'.lost i = r.lost i := by
  rw [hlost, lostAfter, if_neg hev, hsame, if_neg ?_]
  rintro ⟨hrec, hnormal⟩
  rw [hrec] at hnormal
  cases hnormal

/-- Unless it completes a recovery, what a replica does changes nothing. -/
theorem lost_of_local (hlost : r'.lost = r.lostAfter ev r'.cluster) (hev : ev.restarted? = none)
    {t : ReplicaState} {q : List InboundMessage} {effs : List Effect}
    (hlocal : r.cluster.Local r'.cluster i t q effs)
    (hst : (r.cluster.state i).status = .recovery → t.status ≠ .normal) : r'.lost = r.lost := by
  funext j
  by_cases hj : j = i
  · subst hj
    rw [hlost, lostAfter, if_neg (by simp [hev]), hlocal.state_self, if_neg ?_]
    rintro ⟨hrec, hnormal⟩
    exact hst hrec hnormal
  · exact lost_of_same hlost (by simp [hev]) (hlocal.state_ne j hj)

theorem lost_of_none (hlost : r'.lost = r.lostAfter ev r'.cluster) (hev : ev.restarted? = none)
    (hi : r.lost i = none) : r'.lost i = none := by
  rw [hlost, lostAfter, if_neg (by simp [hev]), hi, ite_self]

theorem lost_of_recovered (hlost : r'.lost = r.lostAfter ev r'.cluster)
    (hev : ev.restarted? = none) (hst : (r.cluster.state i).status = .recovery)
    (hst' : (r'.cluster.state i).status = .normal) : r'.lost i = none := by
  rw [hlost, lostAfter, if_neg (by simp [hev]), if_pos ⟨hst, hst'⟩]

theorem lost_of_restart (hlost : r'.lost = r.lostAfter (.restart i) r'.cluster) :
    r'.lost i = if (r.cluster.state i).Pristine then r.lost i
      else some (r.cluster.state i).kept := by
  rw [hlost]
  exact if_pos rfl

/-- What one replica does that has forgotten nothing, it does in the restored cluster. -/
theorem of_kept {t : ReplicaState} {q : List InboundMessage} {effs : List Effect}
    (hlocal : r.cluster.Local r'.cluster i t q effs) (hev : ev.restarted? = none)
    (hlost : r'.lost = r.lostAfter ev r'.cluster) (hi : r.lost i = none)
    (hrestored : r.restored.Static) (hstatic : r'.cluster.Static) :
    r'.lost = r.lost ∧ r.restored.Local r'.restored i t q effs
      ∧ ∀ j s, r.lost j = some s → r'.cluster.state j = r.cluster.state j := by
  have hi' := lost_of_none hlost hev hi
  have hall : r'.lost = r.lost := by
    funext j
    by_cases hj : j = i
    · rw [hj, hi, hi']
    · exact lost_of_same hlost (by simp [hev]) (hlocal.state_ne j hj)
  have hforgets : Forgets r r' := fun j s hj => hall ▸ hj
  refine ⟨hall, local_of_kept hlocal hi' (fun j _ => by rw [hall]) hstatic
    (hforgets.static hlocal.size hrestored hstatic), ?_⟩
  intro j s hj
  refine hlocal.state_ne j ?_
  rintro rfl
  rw [hi] at hj
  cases hj

/-- What a replica that has forgotten its log emits in a careful step does not speak for
it. -/
theorem Careful.silent_of_local {t : ReplicaState} {q : List InboundMessage} {effs : List Effect}
    (h : Careful r ev r') (hlocal : r.cluster.Local r'.cluster i t q effs)
    (hi : (r.lost i).isSome) : ∀ eff ∈ effs, eff.speaksForLog = false := by
  intro eff heff
  refine h.silent (i, eff) ?_ hi
  rw [hlocal.trace, List.drop_left]
  exact List.mem_map_of_mem heff

end

end Forgetful

end VsrKv
