import VsrKv.PartialInverse
import VsrKv.ReplicaManager

/-!
# The tables of the replica manager

`socket_to_peer_id_` is exact just if it is the inverse of the table of the
peers' sockets (`exact_iff`), so what the library knows of two such tables
decides which writes keep it. A descriptor names a connection only while
nothing else has it; who owns which descriptor is the other half of the
invariant (`Owned`), and it does not depend on what the tables say.
-/

namespace VsrKv

open Function PartialInverse

namespace ReplicaManager

variable {s s' : ReplicaManager} {p k fd : Int} {peer : Peer}
  {conn : Nat} {r : IoRequest}

/-! ## The two tables -/

/-- The table that `socket_to_peer_id_` is the inverse of. -/
def socketOf (s : ReplicaManager) (p : Int) : Option Int :=
  (s.connectionOf p).map fun conn => (s.connection conn).socketFd

theorem connectionOf_eq_some : s.connectionOf p = some conn
    ↔ ∃ peer, s.peersById[p]? = some peer ∧ peer.state = .connected
      ∧ peer.connection = some conn := by
  rw [connectionOf, Option.bind_eq_some_iff]
  refine exists_congr fun peer => and_congr_right fun _ => ?_
  by_cases hstate : peer.state = .connected <;> simp [hstate]

theorem socketOf_eq_some : s.socketOf p = some fd
    ↔ ∃ conn, s.connectionOf p = some conn ∧ (s.connection conn).socketFd = fd :=
  Option.map_eq_some_iff

theorem socketOf_eq_none : s.socketOf p = none ↔ s.connectionOf p = none :=
  Option.map_eq_none_iff

theorem exact_iff : s.Exact ↔ IsInverse s.socketOf fun fd => s.socketToPeerId[fd]? := by
  have hpeer : ∀ p fd, s.socketOf p = some fd
      ↔ ∃ peer conn, s.peersById[p]? = some peer ∧ peer.state = .connected
        ∧ peer.connection = some conn ∧ (s.connection conn).socketFd = fd := by
    intro p fd
    rw [socketOf_eq_some]
    constructor
    · rintro ⟨conn, hconn, hfd⟩
      obtain ⟨peer, hfound, hstate, hconn⟩ := connectionOf_eq_some.mp hconn
      exact ⟨peer, conn, hfound, hstate, hconn, hfd⟩
    · rintro ⟨peer, conn, hfound, hstate, hconn, hfd⟩
      exact ⟨conn, connectionOf_eq_some.mpr ⟨peer, hfound, hstate, hconn⟩, hfd⟩
  constructor
  · intro h p fd
    exact (h fd p).trans (hpeer p fd).symm
  · intro h fd p
    exact (h p fd).trans (hpeer p fd)

/-- What `connectionOf` looks up in a record. -/
theorem connectionOf_eq_comp (s : ReplicaManager) :
    s.connectionOf
      = (fun entry : Option Peer =>
          entry.bind fun peer => if peer.state = .connected then peer.connection else none)
        ∘ fun p => s.peersById[p]? := rfl

theorem connectionOf_setPeer (s : ReplicaManager) (k : Int) (peer : Peer) :
    (s.setPeer k peer).connectionOf
      = update s.connectionOf k (if peer.state = .connected then peer.connection else none) := by
  rw [connectionOf_eq_comp, setPeer, getElem?_insert, comp_update]
  rfl

theorem connectionOf_erasePeer (s : ReplicaManager) (k : Int) :
    (s.erasePeer k).connectionOf = update s.connectionOf k none := by
  rw [connectionOf_eq_comp, erasePeer, getElem?_erase, comp_update]
  rfl

/-- A peer is filed under its id, and has a connection just while it is
connected. -/
def Filed (peersById : StdMap Int Peer) : Prop :=
  ∀ (p : Int) (peer : Peer), peersById[p]? = some peer →
    peer.id = p ∧ (peer.state = .connected ↔ peer.connection ≠ none)

theorem Filed.insert {peersById : StdMap Int Peer} (h : Filed peersById) (hid : peer.id = k)
    (hsettled : peer.state = .connected ↔ peer.connection ≠ none) :
    Filed (peersById.insert k peer) := by
  intro p peer' hpeer
  rw [Std.ExtTreeMap.getElem?_insert] at hpeer
  split at hpeer
  · rename_i hk
    obtain rfl : k = p := by simpa using hk
    rw [← Option.some.inj hpeer]
    exact ⟨hid, hsettled⟩
  · exact h p peer' hpeer

/-- The manager's own tables agree, and the connections of the peers are open. -/
structure Agreed (s : ReplicaManager) : Prop where
  exact : IsInverse s.socketOf fun fd => s.socketToPeerId[fd]?
  filed : Filed s.peersById
  live : ∀ p conn, s.connectionOf p = some conn →
    conn ∈ s.objects ∧ (s.connection conn).socketFd ≠ -1

/-- Every descriptor has one owner, a connection or a connect that is under
way. Callbacks refer to connections that are there. -/
structure Owned (s : ReplicaManager) : Prop where
  distinct : ∀ c ∈ s.objects, ∀ c' ∈ s.objects, (s.connection c).socketFd ≠ -1 →
    (s.connection c).socketFd = (s.connection c').socketFd → c = c'
  apart : ∀ fd ∈ s.socks, 0 ≤ fd ∧ ∀ c ∈ s.objects, (s.connection c).socketFd ≠ fd
  once : s.socks.Nodup
  known : ∀ c ∈ s.objects, (s.connection c).socketFd = -1 →
    (s.connection c).state ≠ .unidentified
  referred : ∀ c ∈ s.conns, c ∈ s.objects

structure Kept (s : ReplicaManager) : Prop extends Agreed s, Owned s

/-! ## Descriptors and their owners -/

/-- What may become of a connection: it is identified, and then may be closed. -/
def Ages (c c' : TcpConnection) : Prop :=
  (c.state ≠ .unidentified → c'.state ≠ .unidentified)
    ∧ (c'.socketFd = c.socketFd ∨ c'.socketFd = -1 ∧ c'.state ≠ .unidentified)

theorem Ages.refl (c : TcpConnection) : Ages c c := ⟨id, Or.inl rfl⟩

theorem Owned.shrink (h : s.Owned) (hobjects : s'.objects ⊆ s.objects)
    (hages : ∀ c ∈ s'.objects, Ages (s.connection c) (s'.connection c))
    (hsocks : s'.socks.Sublist s.socks) (hconns : ∀ c ∈ s'.conns, c ∈ s'.objects) :
    s'.Owned where
  distinct c hc c' hc' hopen heq := by
    -- An open descriptor is one from before, at both.
    have hold : ∀ d ∈ s'.objects, (s'.connection d).socketFd ≠ -1 →
        (s'.connection d).socketFd = (s.connection d).socketFd := by
      intro d hd hne
      exact (hages d hd).2.resolve_right fun hclosed => hne hclosed.1
    have hc₀ := hold c hc hopen
    have hc₁ := hold c' hc' (heq ▸ hopen)
    exact h.distinct c (hobjects hc) c' (hobjects hc') (hc₀ ▸ hopen) (by rw [← hc₀, ← hc₁, heq])
  apart fd hfd := by
    obtain ⟨hpos, hne⟩ := h.apart fd (hsocks.subset hfd)
    refine ⟨hpos, ?_⟩
    intro c hc
    rcases (hages c hc).2 with heq | ⟨heq, -⟩
    · rw [heq]
      exact hne c (hobjects hc)
    · rw [heq]
      omega
  once := h.once.sublist hsocks
  known c hc hclosed := by
    obtain ⟨hstate, heq | ⟨-, hidentified⟩⟩ := hages c hc
    · exact hstate (h.known c (hobjects hc) (heq ▸ hclosed))
    · exact hidentified
  referred := hconns

theorem Owned.congr (h : s.Owned) (hconnection : s'.connection = s.connection)
    (hobjects : s'.objects = s.objects) (hrequests : s'.requests = s.requests) : s'.Owned := by
  have hsocks : s'.socks = s.socks := congrArg (List.filterMap _) hrequests
  have hconns : s'.conns = s.conns := congrArg (List.filterMap _) hrequests
  refine h.shrink hobjects.subset ?_ (by rw [hsocks]) ?_
  · intro c _
    rw [hconnection]
    exact Ages.refl _
  · rw [hconns, hobjects]
    exact h.referred

theorem Owned.complete (h : s.Owned) (r : IoRequest) : (s.complete r).Owned :=
  h.shrink (Finset.Subset.refl _) (fun _ _ => Ages.refl _) (socks_complete_sublist s r)
    fun c hc => h.referred c ((conns_complete_sublist s r).subset hc)

/-- A request for a connection that is there, or a timer. -/
theorem Owned.submit (h : s.Owned) (hsock : r.sock? = none) (hconn : ∀ c ∈ r.conn?, c ∈ s.objects) :
    (s.submit r).Owned := by
  refine h.shrink (Finset.Subset.refl _) (fun _ _ => Ages.refl _) (by simp [hsock]) ?_
  intro c hc
  rw [conns_submit, List.mem_append, Option.mem_toList] at hc
  exact hc.elim (hconn c) (h.referred c)

/-- A connect over a new descriptor. -/
theorem Owned.connect (h : s.Owned) (hfd : s.Unused fd) (peer : Option Int) :
    (s.submit (.connect fd peer)).Owned where
  distinct := h.distinct
  apart fd' hfd' := by
    rw [socks_submit] at hfd'
    rcases List.mem_append.mp hfd' with hnew | hold
    · obtain rfl : fd' = fd := by simpa [IoRequest.sock?] using hnew
      exact ⟨hfd.1, hfd.2.1⟩
    · exact h.apart fd' hold
  once := by
    rw [socks_submit]
    exact List.nodup_cons.mpr ⟨hfd.2.2, h.once⟩
  known := h.known
  referred := by
    rw [conns_submit]
    exact h.referred

theorem connection_registerNewConnection (s : ReplicaManager) (conn : Nat) (fd : Int) :
    (s.registerNewConnection conn fd).connection
      = update s.connection conn { socketFd := fd } := rfl

/-- A connection object over a new descriptor. -/
theorem Owned.registerNewConnection (h : s.Owned) (hconn : conn ∉ s.objects)
    (hfd : s.Unused fd) : (s.registerNewConnection conn fd).Owned := by
  obtain ⟨hpos, hobjects, hsocks⟩ := hfd
  have hnew : (s.registerNewConnection conn fd).connection conn = { socketFd := fd } := by
    rw [connection_registerNewConnection, update_self]
  have hold : ∀ c ∈ s.objects,
      (s.registerNewConnection conn fd).connection c = s.connection c := by
    intro c hc
    rw [connection_registerNewConnection, update_of_ne (ne_of_mem_of_not_mem hc hconn)]
  have hmem : ∀ c ∈ (s.registerNewConnection conn fd).objects, c = conn ∨ c ∈ s.objects :=
    fun _ hc => Finset.mem_insert.mp hc
  refine ⟨?_, ?_, h.once, ?_, ?_⟩
  · intro c hc c' hc' hopen heq
    rcases hmem c hc with hc | hc <;> rcases hmem c' hc' with hc' | hc'
    · rw [hc, hc']
    · rw [hc, hnew, hold c' hc'] at heq
      exact absurd heq.symm (hobjects c' hc')
    · rw [hc', hnew, hold c hc] at heq
      exact absurd heq (hobjects c hc)
    · rw [hold c hc] at hopen heq
      rw [hold c' hc'] at heq
      exact h.distinct c hc c' hc' hopen heq
  · intro fd' hfd'
    obtain ⟨hpos', hne⟩ := h.apart fd' hfd'
    refine ⟨hpos', ?_⟩
    intro c hc
    rcases hmem c hc with rfl | hc
    · rw [hnew]
      rintro rfl
      exact hsocks hfd'
    · rw [hold c hc]
      exact hne c hc
  · intro c hc hclosed
    rcases hmem c hc with rfl | hc
    · rw [hnew] at hclosed
      rw [show fd = -1 from hclosed] at hpos
      omega
    · rw [hold c hc] at hclosed ⊢
      exact h.known c hc hclosed
  · intro c hc
    rw [ReplicaManager.registerNewConnection, conns_submit] at hc
    rcases List.mem_cons.mp hc with rfl | hc
    · exact Finset.mem_insert_self ..
    · exact Finset.mem_insert_of_mem (h.referred c hc)

/-- The socket of a connect that has completed has no owner until the callback
gives it one. -/
theorem Owned.unused_complete (h : s.Owned) {peer : Option Int}
    (hr : .connect fd peer ∈ s.requests) : (s.complete (.connect fd peer)).Unused fd := by
  have hperm : s.socks.Perm (fd :: (s.complete (.connect fd peer)).socks) :=
    (List.perm_cons_erase hr).filterMap _
  obtain ⟨hpos, hobjects⟩ := h.apart fd (hperm.mem_iff.mpr List.mem_cons_self)
  exact ⟨hpos, hobjects, (List.nodup_cons.mp (hperm.nodup_iff.mp h.once)).1⟩

/-! ## Writes to the tables -/

theorem connectionOf_congr (h : s'.peersById = s.peersById) :
    s'.connectionOf = s.connectionOf := by
  funext p
  rw [connectionOf, connectionOf, h]

theorem socketOf_congr (h : s'.connectionOf = s.connectionOf)
    (hsocket : ∀ p conn, s.connectionOf p = some conn →
      (s'.connection conn).socketFd = (s.connection conn).socketFd) :
    s'.socketOf = s.socketOf := by
  funext p
  rw [socketOf, socketOf, h]
  cases hconn : s.connectionOf p with
  | none => rfl
  | some conn => rw [Option.map_some, Option.map_some, hsocket p conn hconn]

/-- Neither table is written, and the peers' connections stay open. -/
theorem Agreed.of_eq (h : s.Agreed) (hpeers : s'.peersById = s.peersById)
    (hsockets : s'.socketToPeerId = s.socketToPeerId)
    (hkept : ∀ p conn, s.connectionOf p = some conn → conn ∈ s'.objects
      ∧ (s'.connection conn).socketFd = (s.connection conn).socketFd) : s'.Agreed where
  exact := by
    rw [socketOf_congr (connectionOf_congr hpeers) fun p conn hconn => (hkept p conn hconn).2,
      hsockets]
    exact h.exact
  filed := hpeers ▸ h.filed
  live p conn hconn := by
    rw [connectionOf_congr hpeers] at hconn
    obtain ⟨hobject, hsocket⟩ := hkept p conn hconn
    rw [hsocket]
    exact ⟨hobject, (h.live p conn hconn).2⟩

/-- Nothing the tables are about is written. -/
theorem Agreed.congr (h : s.Agreed) (hpeers : s'.peersById = s.peersById)
    (hsockets : s'.socketToPeerId = s.socketToPeerId) (hconnection : s'.connection = s.connection)
    (hobjects : s'.objects = s.objects) : s'.Agreed := by
  refine h.of_eq hpeers hsockets ?_
  intro p conn hconn
  rw [hobjects, hconnection]
  exact ⟨(h.live p conn hconn).1, rfl⟩

/-- Neither table is written, and an open connection of a peer is closed. -/
theorem Agreed.not_exact_of_closed (h : s.Agreed) (hpeers : s'.peersById = s.peersById)
    (hsockets : s'.socketToPeerId = s.socketToPeerId) (hconn : s.connectionOf p = some conn)
    (hclosed : (s'.connection conn).socketFd = -1) : ¬s'.Exact := by
  intro hexact
  rw [exact_iff, hsockets] at hexact
  have hsame : s.socketOf p = s'.socketOf p := congrFun (h.exact.left_unique hexact) p
  rw [socketOf, socketOf, connectionOf_congr hpeers, hconn, Option.map_some, Option.map_some,
    hclosed, Option.some.injEq] at hsame
  exact (h.live p conn hconn).2 hsame

theorem getElem?_setPeer (s : ReplicaManager) (k p : Int) (peer : Peer) :
    (s.setPeer k peer).peersById[p]? = if k = p then some peer else s.peersById[p]? := by
  rw [setPeer, Std.ExtTreeMap.getElem?_insert]
  simp

/-- A peer that is not connected gets another record in which it is not. -/
theorem Agreed.setPeer (h : s.Agreed) (hnone : s.connectionOf k = none) (hid : peer.id = k)
    (hstate : peer.state ≠ .connected) (hconn : peer.connection = none) :
    (s.setPeer k peer).Agreed := by
  have hsame : (s.setPeer k peer).connectionOf = s.connectionOf := by
    rw [connectionOf_setPeer, if_neg hstate, ← hnone, update_eq_self]
  refine ⟨?_, h.filed.insert hid (by simp [hstate, hconn]), ?_⟩
  · rw [socketOf_congr hsame fun _ _ _ => rfl]
    exact h.exact
  · rw [hsame]
    exact h.live

/-- A peer is marked as not connected, and its socket stays in the other table. -/
theorem Agreed.exact_forget_iff (h : s.Agreed) (hsockets : s'.socketToPeerId = s.socketToPeerId)
    (hforget : s'.socketOf = update s.socketOf k none) : s'.Exact ↔ s.connectionOf k = none := by
  rw [exact_iff, hsockets, hforget, h.exact.forget_iff, socketOf_eq_none]

/-- The write that both `attempt_connection` and `register_identified_peer` do:
peer `k` is connected over `conn`, whose socket is `fd`. -/
structure Connects (s s' : ReplicaManager) (k : Int) (conn : Nat) (fd : Int) : Prop where
  peers : ∃ peer : Peer, peer.id = k
    ∧ s'.peersById = s.peersById.insert k { peer with state := .connected, connection := some conn }
  sockets : s'.socketToPeerId = s.socketToPeerId.insert fd k
  socket : (s'.connection conn).socketFd = fd
  others : ∀ c ∈ s.objects, (s'.connection c).socketFd = (s.connection c).socketFd
  objects : s.objects ⊆ s'.objects
  object : conn ∈ s'.objects

theorem Connects.connectionOf (h : Connects s s' k conn fd) :
    s'.connectionOf = update s.connectionOf k (some conn) := by
  obtain ⟨peer, -, hpeers⟩ := h.peers
  have hset := connectionOf_setPeer s k { peer with state := .connected, connection := some conn }
  rw [if_pos rfl] at hset
  rw [← hset]
  exact connectionOf_congr hpeers

theorem Connects.socketOf (h : Connects s s' k conn fd) (hs : s.Agreed) :
    s'.socketOf = update s.socketOf k (some fd) := by
  funext p
  rw [ReplicaManager.socketOf, h.connectionOf]
  by_cases hp : p = k
  · subst hp
    rw [update_self, update_self, Option.map_some, h.socket]
  · rw [update_of_ne hp, update_of_ne hp, ReplicaManager.socketOf]
    cases hconn : s.connectionOf p with
    | none => rfl
    | some c => rw [Option.map_some, Option.map_some, h.others c (hs.live p c hconn).1]

/-- It may be done for a peer that is not connected over a connection that is
nobody's, or once more for a peer and its connection. -/
theorem Connects.exact_iff (h : Connects s s' k conn fd) (hs : s.Agreed) :
    s'.Exact ↔ s.socketOf k = none ∧ s.socketToPeerId[fd]? = none ∨ s.socketOf k = some fd := by
  rw [ReplicaManager.exact_iff, h.socketOf hs, h.sockets, PartialInverse.getElem?_insert,
    hs.exact.update_iff]

theorem Connects.agreed (h : Connects s s' k conn fd) (hs : s.Agreed) (hfd : fd ≠ -1)
    (hexact : s'.Exact) : s'.Agreed := by
  obtain ⟨peer, hid, hpeers⟩ := h.peers
  refine ⟨ReplicaManager.exact_iff.mp hexact, ?_, ?_⟩
  · rw [hpeers]
    exact hs.filed.insert hid (by simp)
  · intro p c hc
    rw [h.connectionOf] at hc
    by_cases hp : p = k
    · subst hp
      rw [update_self, Option.some.injEq] at hc
      rw [← hc, h.socket]
      exact ⟨h.object, hfd⟩
    · rw [update_of_ne hp] at hc
      obtain ⟨hobject, hopen⟩ := hs.live p c hc
      rw [h.others c hobject]
      exact ⟨h.objects hobject, hopen⟩

end ReplicaManager

end VsrKv
