import VsrKv.Serialization

/-!
# The replica's protocol state

`replica_state.hpp`: the state a replica keeps between messages, its
start-up value, and the two ways the program asks who the primary is.
-/

namespace VsrKv

inductive ReplicaStatus where
  | normal
  | viewChange
  | recovery
deriving Repr, DecidableEq

structure PeerConfig where
  id : Nat
  host : String
  port : Nat
deriving Repr, DecidableEq

structure ReplicaState where
  id : Nat
  faultToleranceF : Nat
  clusterConfig : StdMap Nat PeerConfig
  status : ReplicaStatus := .normal
  view : Nat := 0
  op : Nat := 0
  commit : Nat := 0
  lastExecutedOp : Nat := 0
  log : Log := ∅
  clientTable : StdMap UInt128 ClientTableEntry := ∅
  stateMachine : StdMap Bytes Bytes := ∅
  recoveryNonce : UInt128 := {}
  recoveryResponses : List VsrMessage := []
  lastNormalView : Nat := 0
  startViewChangeReceived : Finset Nat := ∅
  doViewChangeReceived : List VsrMessage := []

namespace ReplicaState

/-- The constructor `ReplicaState(int id, std::vector<peer_config> config)`. -/
def new (id : Nat) (config : List PeerConfig) : ReplicaState where
  id := id
  faultToleranceF := (config.length - 1) / 2
  clusterConfig := config.foldl (fun m peer => m.insert peer.id peer) ∅

def getPrimaryId (s : ReplicaState) : Nat := s.view % (2 * s.faultToleranceF + 1)

def isPrimary (s : ReplicaState) : Bool := s.id == s.getPrimaryId

def enterNewView (s : ReplicaState) (newView : Nat) : ReplicaState :=
  { s with
    lastNormalView := if s.status = .normal then s.view else s.lastNormalView
    view := newView
    status := .viewChange
    startViewChangeReceived := {s.id}
    doViewChangeReceived := [] }

/-- `none` is the source's `-1`, the id of no replica. -/
def getPrimaryIdForView (s : ReplicaState) (viewNum : Nat) : Option Nat :=
  if s.clusterConfig.size = 0 then none else some (viewNum % s.clusterConfig.size)

end ReplicaState

/-- The configuration `server_main` builds, for a cluster of `n`. -/
def clusterOf (n : Nat) : List PeerConfig :=
  (List.range n).map fun i => { id := i, host := "localhost", port := 8080 + i }

/-! ## The configuration of a cluster

The keys of the map the constructor builds are the ids it is given; for
`clusterOf n` these are the numbers below `n`. -/

theorem mem_foldl_insert {config : List PeerConfig} {acc : StdMap Nat PeerConfig} {j : Nat} :
    j ∈ config.foldl (fun m peer => m.insert peer.id peer) acc
      ↔ j ∈ config.map PeerConfig.id ∨ j ∈ acc := by
  induction config generalizing acc with
  | nil => simp
  | cons peer config ih =>
      rw [List.foldl_cons, ih, List.map_cons, List.mem_cons, Std.ExtTreeMap.mem_insert,
        Std.LawfulEqCmp.compare_eq_iff_eq, eq_comm, or_left_comm, or_assoc]

theorem mem_clusterConfig {i j : Nat} {config : List PeerConfig} :
    j ∈ (ReplicaState.new i config).clusterConfig ↔ j ∈ config.map PeerConfig.id := by
  rw [ReplicaState.new, mem_foldl_insert]
  simp

theorem keys_clusterConfig {config : List PeerConfig} (h : (config.map PeerConfig.id).Nodup)
    (i : Nat) :
    (ReplicaState.new i config).clusterConfig.keys.Perm (config.map PeerConfig.id) := by
  refine (List.perm_ext_iff_of_nodup ?_ h).mpr ?_
  · exact Std.ExtTreeMap.distinct_keys.imp fun h => by simpa using h
  · intro j
    rw [Std.ExtTreeMap.mem_keys, mem_clusterConfig]

theorem size_clusterConfig {config : List PeerConfig} (h : (config.map PeerConfig.id).Nodup)
    (i : Nat) : (ReplicaState.new i config).clusterConfig.size = config.length := by
  rw [← Std.ExtTreeMap.length_keys, (keys_clusterConfig h i).length_eq, List.length_map]

@[simp] theorem ids_clusterOf (n : Nat) : (clusterOf n).map PeerConfig.id = List.range n := by
  rw [clusterOf, List.map_map]
  exact List.map_id _

@[simp] theorem length_clusterOf (n : Nat) : (clusterOf n).length = n := by
  simp [clusterOf]

theorem nodup_ids_clusterOf (n : Nat) : ((clusterOf n).map PeerConfig.id).Nodup := by
  rw [ids_clusterOf]
  exact List.nodup_range

theorem mem_clusterConfig_new {n i j : Nat} :
    j ∈ (ReplicaState.new i (clusterOf n)).clusterConfig ↔ j < n := by
  rw [mem_clusterConfig, ids_clusterOf, List.mem_range]

theorem keys_clusterConfig_new (n i : Nat) :
    (ReplicaState.new i (clusterOf n)).clusterConfig.keys.Perm (List.range n) := by
  rw [← ids_clusterOf]
  exact keys_clusterConfig (nodup_ids_clusterOf n) i

end VsrKv
