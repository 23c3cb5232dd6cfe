import VsrKv.ClusterStep
import VsrKv.Discipline
import VsrKv.Viewstamped.Protocol

/-!
# Cluster sizes

The primary of a view is computed twice: `is_primary` goes by `view_`
modulo `2 * f + 1`, `get_primary_id_for_view` by the view modulo the
number of replicas, and quorums have `f + 1` members. As `f` is half the
number of the other replicas, rounded down, `2 * f + 1` is the number of
replicas just if that is odd, and one less otherwise.

With an even number the two primaries differ in the view in which the
last replica is elected, this replica is never a primary by the other
count, and the replicas can be split into two quorums. Nothing checks
the size of a configuration.
-/

namespace VsrKv

/-! ## Configurations -/

/-- Replicas `0, …, n - 1`, listed in any order. Ids are `int`s. -/
structure Configuration where
  peers : List PeerConfig
  ids : (peers.map PeerConfig.id).Perm (List.range peers.length)
  nonempty : 0 < peers.length
  int : peers.length ≤ 2 ^ 31

namespace Configuration

def size (c : Configuration) : Nat := c.peers.length

/-- The configuration `server_main` builds, for `n` replicas. -/
def ofSize (n : Nat) (hpos : 0 < n) (hint : n ≤ 2 ^ 31) : Configuration where
  peers := clusterOf n
  ids := by simp
  nonempty := by simpa using hpos
  int := by simpa using hint

end Configuration

/-! ## A replica's configuration, in every state -/

namespace Node

open TransitionSystem

theorem Moves.sameConfig {n n' : Node} {inp : Input} (h : Moves n inp n') :
    SameConfig n.replica.state n'.replica.state := by
  cases h with
  | quiet hstate => rw [hstate]; exact .rfl' _
  | act _ _ _ _ _ _ _ hacts => exact hacts.sameConfig
  | enterView _ _ hstate => rw [hstate]; exact ⟨rfl, rfl, rfl⟩
  | enterRecovery _ _ _ _ _ _ _ _ hstate => rw [hstate]; exact ⟨rfl, rfl, rfl⟩

theorem sameConfig_run {ok : Node → Input → Node → Prop} {n : Node} {id : Nat}
    {config : List PeerConfig} (run : Steps step ok (boot id config) n) :
    SameConfig (.new id config) n.replica.state := by
  have h : n.replica.out = [] ∧ SameConfig (.new id config) n.replica.state := by
    refine run.invariant
      (I := fun n => n.replica.out = [] ∧ SameConfig (.new id config) n.replica.state)
      ⟨rfl, .rfl' _⟩ ?_
    intro u inp v _ hstep _ h
    exact ⟨step_out h.1 hstep, h.2.trans (step_moves h.1 hstep).sameConfig⟩
  exact h.2

end Node

/-! ## The two primaries -/

section

variable {c : Configuration} {i : Nat} {s : ReplicaState}

theorem Configuration.nodup_ids (c : Configuration) : (c.peers.map PeerConfig.id).Nodup :=
  c.ids.nodup_iff.mpr List.nodup_range

theorem Configuration.getPrimaryIdForView (h : SameConfig (.new i c.peers) s) (view : Nat) :
    s.getPrimaryIdForView view = some (view % c.size) :=
  h.getPrimaryIdForView c.nodup_ids c.nonempty view

theorem Configuration.isPrimary_iff (h : SameConfig (.new i c.peers) s) :
    s.isPrimary = true ↔ i = s.view % (2 * ((c.size - 1) / 2) + 1) := by
  rw [h.isPrimary, decide_eq_true_iff]
  rfl

theorem Configuration.modulus_of_odd (h : c.size % 2 = 1) :
    2 * ((c.size - 1) / 2) + 1 = c.size := by
  omega

/-- With an even number of replicas, the last one is in no view the primary. -/
theorem Configuration.last_not_primary (heven : ¬c.size % 2 = 1)
    (h : SameConfig (.new (c.size - 1) c.peers) s) : ¬s.isPrimary = true := by
  rw [isPrimary_iff h]
  have hpos : 0 < c.size := c.nonempty
  have hlt := Nat.mod_lt s.view (show 2 * ((c.size - 1) / 2) + 1 > 0 by omega)
  omega

end

/-! ## What a cluster size has to provide -/

namespace Configuration

variable (c : Configuration)

/-- In each view, the replica all elect is the one that takes itself for the
primary. -/
def OnePrimary : Prop :=
  ∀ view < 2 ^ 32, ∃ p < c.size,
    (∀ i < c.size, ∀ s, SameConfig (.new i c.peers) s → s.getPrimaryIdForView view = some p)
      ∧ ∀ i < c.size, ∀ s, SameConfig (.new i c.peers) s → s.view = view →
          (s.isPrimary = true ↔ i = p)

def EveryonePrimary : Prop :=
  ∀ i < c.size, ∃ view < 2 ^ 32, ∀ s, SameConfig (.new i c.peers) s → s.view = view →
    s.isPrimary = true

def QuorumsMeet : Prop :=
  ∀ i < c.size, ∀ s, SameConfig (.new i c.peers) s →
    ∀ A ⊆ Finset.range c.size, ∀ B ⊆ Finset.range c.size,
      A.card = s.faultToleranceF + 1 → B.card = s.faultToleranceF + 1 → (A ∩ B).Nonempty

structure Fits : Prop where
  primary : c.OnePrimary
  everyone : c.EveryonePrimary
  quorums : c.QuorumsMeet

/-- A replica's state in some view. -/
def inView (i view : Nat) : ReplicaState := { ReplicaState.new i c.peers with view }

theorem sameConfig_inView (i view : Nat) : SameConfig (.new i c.peers) (c.inView i view) :=
  ⟨rfl, rfl, rfl⟩

variable {c}

theorem onePrimary_iff : c.OnePrimary ↔ c.size % 2 = 1 := by
  have hpos : 0 < c.size := c.nonempty
  have hint : c.size ≤ 2 ^ 31 := c.int
  constructor
  · intro h
    by_contra heven
    -- the view in which the last replica is elected
    obtain ⟨p, -, helected, hprimary⟩ := h (c.size - 1) (by omega)
    have hsame := c.sameConfig_inView (c.size - 1) (c.size - 1)
    have hp : p = c.size - 1 := by
      have h := helected _ (by omega) _ hsame
      rw [getPrimaryIdForView hsame, Nat.mod_eq_of_lt (by omega)] at h
      exact (Option.some.inj h).symm
    exact last_not_primary heven hsame ((hprimary _ (by omega) _ hsame rfl).mpr hp.symm)
  · intro hodd view _
    refine ⟨view % c.size, Nat.mod_lt _ hpos, ?_, ?_⟩
    · intro i _ s hs
      exact getPrimaryIdForView hs view
    · intro i _ s hs hview
      rw [isPrimary_iff hs, modulus_of_odd hodd, hview]

theorem everyonePrimary_iff : c.EveryonePrimary ↔ c.size % 2 = 1 := by
  have hpos : 0 < c.size := c.nonempty
  have hint : c.size ≤ 2 ^ 31 := c.int
  constructor
  · intro h
    by_contra heven
    obtain ⟨view, -, hprimary⟩ := h (c.size - 1) (by omega)
    have hsame := c.sameConfig_inView (c.size - 1) view
    exact last_not_primary heven hsame (hprimary _ hsame rfl)
  · intro hodd i hi
    refine ⟨i, by omega, fun s hs hview => ?_⟩
    rw [isPrimary_iff hs, modulus_of_odd hodd, hview, Nat.mod_eq_of_lt hi]

theorem quorumsMeet_iff : c.QuorumsMeet ↔ c.size % 2 = 1 := by
  have hpos : 0 < c.size := c.nonempty
  have hquorum : (c.size - 1) / 2 + 1 ≤ (Finset.range c.size).card := by
    rw [Finset.card_range]
    omega
  have hmeet := Viewstamped.subsets_meet_iff hquorum
  rw [Finset.card_range] at hmeet
  constructor
  · intro h
    have hlt := hmeet.mp (h 0 hpos _ (c.sameConfig_inView 0 0))
    omega
  · intro hodd i _ s hs
    rw [hs.f]
    exact hmeet.mpr (by omega)

theorem fits_iff_odd (c : Configuration) : c.Fits ↔ c.size % 2 = 1 := by
  constructor
  · intro h
    exact quorumsMeet_iff.mp h.quorums
  · intro hodd
    exact ⟨onePrimary_iff.mpr hodd, everyonePrimary_iff.mpr hodd, quorumsMeet_iff.mpr hodd⟩

/-- With an odd number of replicas, whatever two of them have gone through, the
one is elected by the other for the view it is in just if it is its primary. -/
theorem elected_iff_isPrimary_run {ok : Node → Input → Node → Prop} {n n' : Node}
    {i j : Nat} (hodd : c.size % 2 = 1)
    (run : TransitionSystem.Steps Node.step ok (Node.boot i c.peers) n)
    (run' : TransitionSystem.Steps Node.step ok (Node.boot j c.peers) n') :
    n'.replica.state.getPrimaryIdForView n.replica.state.view = some i
      ↔ n.replica.state.isPrimary = true := by
  rw [getPrimaryIdForView (Node.sameConfig_run run'), isPrimary_iff (Node.sameConfig_run run),
    modulus_of_odd hodd, Option.some_inj, eq_comm]

/-- Replica 3 is elected in view 3, and replica 0 goes on as its primary. -/
theorem two_primaries_of_four :
    let c := ofSize 4 (by decide) (by decide)
    (c.inView 1 3).getPrimaryIdForView 3 = some 3
      ∧ (c.inView 3 3).isPrimary = false
      ∧ (c.inView 0 3).isPrimary = true
      ∧ ¬c.Fits := by
  intro c
  have hsize : c.size = 4 := length_clusterOf 4
  refine ⟨?_, by decide, by decide, ?_⟩
  · rw [getPrimaryIdForView (c.sameConfig_inView 1 3), hsize]
  · intro h
    have hodd := quorumsMeet_iff.mp h.quorums
    rw [hsize] at hodd
    exact absurd hodd (by decide)

end Configuration

end VsrKv
