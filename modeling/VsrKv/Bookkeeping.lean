import VsrKv.PeerEvents
import VsrKv.TransitionSystem

/-!
# Runs that keep the tables

The step lemma is that an orderly event leads to a state with the invariant
(`Kept.handle`), and that an event after which the tables agree was orderly
(`Kept.orderly_of_exact`); the rule for invariants does the rest.
-/

namespace VsrKv

open Function PartialInverse TransitionSystem

namespace ReplicaManager

variable {H : Bytes → UInt128} {s s' : ReplicaManager} {p k fd : Int} {peer : Peer}
  {conn : Nat} {r : IoRequest}

/-! ## Whole runs -/

theorem peer?_eq_some {ref : Option Int} (h : s.peer? ref = some (k, peer)) :
    s.peersById[k]? = some peer := by
  rw [peer?, Option.bind_eq_some_iff] at h
  obtain ⟨p, -, hp⟩ := h
  rw [Option.map_eq_some_iff] at hp
  obtain ⟨peer', hpeer, heq⟩ := hp
  obtain ⟨rfl, rfl⟩ := Prod.mk.inj heq
  exact hpeer

/-- A failed read or write. -/
theorem Kept.loses {e : ServerEvent} (h : s.Kept) (he : s.Enabled e)
    (hlost : e = .readFailed conn ∨ e = .writeFailed conn) :
    ∃ s', s.handle H e = some s' ∧ Loses s s' conn := by
  rcases hlost with rfl | rfl
  · have hobject := h.object_of_request he rfl
    have hforgot : ((s.complete (.read conn)).forgetBuffer conn).Kept :=
      (h.complete (.read conn)).congr rfl rfl rfl rfl rfl
    obtain ⟨s', hs', hkept, hgone, hothers⟩ := hforgot.removeConnection hobject
    exact ⟨s', hs', hkept, hgone, hothers⟩
  · have hobject := h.object_of_request he rfl
    obtain ⟨s', hs', hkept, hgone, hothers⟩ :=
      (h.complete (.write conn)).removeConnection hobject
    exact ⟨s', hs', hkept, hgone, hothers⟩

/-- An orderly event keeps the tables. -/
theorem Kept.handle {e : ServerEvent} (h : s.Kept) (he : s.Enabled e) (ho : s.Orderly H e) :
    ∃ s', s.handle H e = some s' ∧ s'.Kept := by
  cases e with
  | start sock => exact ⟨_, rfl, h.connectToPeers_loop he.1 he.2⟩
  | accepted conn clientSocket =>
      obtain ⟨hconn, hunused⟩ := he
      refine ⟨_, rfl, ?_, h.toOwned.registerNewConnection hconn hunused⟩
      refine h.toAgreed.of_eq rfl rfl ?_
      intro p c hc
      have hobject := (h.live p c hc).1
      refine ⟨Finset.mem_insert_of_mem hobject, ?_⟩
      rw [connection_registerNewConnection, update_of_ne (ne_of_mem_of_not_mem hobject hconn)]
  | connected sock peer conn =>
      obtain ⟨⟨id, p⟩, hp, hstate⟩ := ho
      have hp' : s.peer? peer = some (id, p) := hp
      refine ⟨_, ?_, h.onConnected he.1 (peer?_eq_some hp) he.2 hstate⟩
      simp only [ReplicaManager.handle, hp']
  | connectFailed sock peer =>
      obtain ⟨⟨id, p⟩, hp, hstate⟩ := ho
      have hp' : s.peer? peer = some (id, p) := hp
      refine ⟨_, ?_, h.onConnectFailed (peer?_eq_some hp) hstate (.connect sock peer)⟩
      simp only [ReplicaManager.handle, hp']
  | reconnectTimer peer sock =>
      obtain ⟨⟨id, p⟩, hp⟩ := Option.isSome_iff_exists.mp ho
      refine ⟨_, ?_, (h.complete (.timeout peer)).attemptConnection (peer?_eq_some hp)
        fun fd hfd => (he.2 fd hfd).complete _⟩
      simp only [ReplicaManager.handle, hp]
  | received conn data =>
      obtain ⟨hiff, hagreed⟩ := h.onReceived_iff (H := H) he data
      exact ⟨_, rfl, hagreed (hiff.mpr ho), h.owned_onReceived he data⟩
  | readFailed conn =>
      obtain ⟨s', hs', hlost⟩ := h.loses (H := H) he (Or.inl rfl)
      exact ⟨s', hs', hlost.kept⟩
  | send conn =>
      refine ⟨_, rfl, h.submit rfl ?_⟩
      intro c hc
      obtain rfl : conn = c := Option.some.inj hc
      exact he
  | written conn => exact ⟨_, rfl, h.complete _⟩
  | writeFailed conn =>
      obtain ⟨s', hs', hlost⟩ := h.loses (H := H) he (Or.inr rfl)
      exact ⟨s', hs', hlost.kept⟩
  | addPeer newPeer sock => exact ⟨_, rfl, h.addPeer he⟩
  | removePeer peerId => exact ⟨_, rfl, h.removePeer ho⟩
  | released conn => exact ⟨_, rfl, h.released he⟩

/-- An event that is not breaks them, or is not survived. -/
theorem Kept.orderly_of_exact {e : ServerEvent} (h : s.Kept) (he : s.Enabled e)
    (hs' : s.handle H e = some s') (hexact : s'.Exact) : s.Orderly H e := by
  cases e with
  | connected sock peer conn =>
      cases hp : s.peer? peer with
      | none => simp [ReplicaManager.handle, hp] at hs'
      | some found =>
          obtain ⟨id, p⟩ := found
          simp only [ReplicaManager.handle, hp, Option.some.injEq] at hs'
          subst hs'
          exact ⟨(id, p), hp, (h.exact_onConnected_iff he.1 (peer?_eq_some hp) he.2).mp hexact⟩
  | connectFailed sock peer =>
      cases hp : s.peer? peer with
      | none => simp [ReplicaManager.handle, hp] at hs'
      | some found =>
          obtain ⟨id, p⟩ := found
          simp only [ReplicaManager.handle, hp, Option.some.injEq] at hs'
          subst hs'
          exact ⟨(id, p), hp, (h.exact_onConnectFailed_iff (peer?_eq_some hp) _).mp hexact⟩
  | reconnectTimer peer sock =>
      cases hp : s.peer? peer with
      | none => simp [ReplicaManager.handle, hp] at hs'
      | some found => exact Option.isSome_of_eq_some hp
  | received conn data =>
      obtain rfl := Option.some.inj hs'
      exact (h.onReceived_iff he data).1.mp hexact
  | removePeer peerId =>
      obtain rfl := Option.some.inj hs'
      exact h.connectionOf_of_exact_removePeer hexact
  | _ => trivial

theorem forall_foldl_insertIfNew {P : Int → Peer → Prop} {peers : List Peer}
    (hpeers : ∀ peer ∈ peers, P peer.id peer) {m : StdMap Int Peer}
    (hm : ∀ (p : Int) (peer : Peer), m[p]? = some peer → P p peer) (p : Int) (peer : Peer)
    (h : (peers.foldl (fun m peer => m.insertIfNew peer.id peer) m)[p]? = some peer) :
    P p peer := by
  induction peers generalizing m with
  | nil => exact hm p peer h
  | cons first peers ih =>
      obtain ⟨hfirst, hrest⟩ := List.forall_mem_cons.mp hpeers
      refine ih hrest ?_ h
      intro p' peer' hpeer'
      rw [Std.ExtTreeMap.getElem?_insertIfNew] at hpeer'
      split at hpeer'
      · rename_i hnew
        obtain rfl : first.id = p' := by simpa using hnew.1
        rw [← Option.some.inj hpeer']
        exact hfirst
      · exact hm p' peer' hpeer'

/-- At the start no peer is connected and nothing is under way. -/
theorem kept_create (selfId : Int) {peers : List Peer}
    (hnew : ∀ peer ∈ peers, peer.state = .disconnected ∧ peer.connection = none) :
    (create selfId peers).Kept := by
  have hidle := forall_foldl_insertIfNew (P := fun p peer => peer.id = p
      ∧ peer.state = .disconnected ∧ peer.connection = none) (m := ∅)
    (fun peer hpeer => ⟨rfl, hnew peer hpeer⟩) (by simp)
  have hnone : ∀ p, (create selfId peers).connectionOf p = none := by
    intro p
    cases hpeer : (create selfId peers).peersById[p]? with
    | none => simp [connectionOf, hpeer]
    | some peer =>
        refine connectionOf_of_state hpeer ?_
        rw [(hidle p peer hpeer).2.1]
        decide
  refine ⟨⟨?_, ?_, ?_⟩, ⟨?_, ?_, List.nodup_nil, ?_, ?_⟩⟩
  · intro p fd
    rw [socketOf, hnone p]
    simp [create]
  · intro p peer hpeer
    obtain ⟨hid, hstate, hconn⟩ := hidle p peer hpeer
    exact ⟨hid, by simp [hstate, hconn]⟩
  · intro p conn hconn
    rw [hnone p] at hconn
    cases hconn
  all_goals
    intro _ h
    cases h

/-- As long as the events are orderly, the two tables agree in every state. No
exception is thrown, the socket of a connected peer is open, and the failure
of a connection disconnects the peer reached over it and no other. An event
that is not orderly leaves tables that do not agree, or a callback without
its peer. -/
theorem bookkeeping_exact (H : Bytes → UInt128) {selfId : Int} {peers : List Peer}
    {s : ReplicaManager}
    (hnew : ∀ peer ∈ peers, peer.state = .disconnected ∧ peer.connection = none)
    (run : Steps (handle H) (fun s e _ => s.Enabled e ∧ s.Orderly H e)
      (create selfId peers) s) :
    s.Exact
      ∧ (∀ p conn, s.connectionOf p = some conn → (s.connection conn).socketFd ≠ -1)
      ∧ (∀ conn e, e = .readFailed conn ∨ e = .writeFailed conn → s.Enabled e →
        ∃ s', s.handle H e = some s' ∧ (∀ p, s'.connectionOf p ≠ some conn)
          ∧ ∀ (p : Int) (peer : Peer), s.peersById[p]? = some peer →
            peer.connection ≠ some conn → s'.peersById[p]? = some peer)
      ∧ ∀ e, s.Enabled e → (s.Orderly H e ↔ ∃ s', s.handle H e = some s' ∧ s'.Exact) := by
  have hkept : s.Kept := by
    refine run.invariant (I := Kept) (kept_create selfId hnew) ?_
    intro u e v _ hstep hok hu
    obtain ⟨v', hv', hkept⟩ := hu.handle hok.1 hok.2
    rw [hstep, Option.some.injEq] at hv'
    rw [hv']
    exact hkept
  refine ⟨exact_iff.mpr hkept.exact, fun p conn hconn => (hkept.live p conn hconn).2, ?_, ?_⟩
  · intro conn e hlost he
    obtain ⟨s', hs', -, hgone, hothers⟩ := hkept.loses (H := H) he hlost
    exact ⟨s', hs', hgone, hothers⟩
  · intro e he
    constructor
    · intro ho
      obtain ⟨s', hs', hkept'⟩ := hkept.handle he ho
      exact ⟨s', hs', exact_iff.mpr hkept'.exact⟩
    · rintro ⟨s', hs', hexact⟩
      exact hkept.orderly_of_exact he hs' hexact

/-- Replica 1 connects to replica 0 and is connected to by replica 2; replica 0
is lost, and found again over the descriptor it had. -/
theorem bookkeeping_exact_reconnected :
    let H : Bytes → UInt128 := fun bs => ⟨0, bs.foldl (fun n b => n + b.toUInt64) 0⟩
    ∃ s, Steps (handle H) (fun s e _ => s.Enabled e ∧ s.Orderly H e)
        (create 1 [{ id := 0 }, { id := 2 }]) s
      ∧ s.socketToPeerId.toList = [(5, 0), (6, 2)] ∧ s.Exact := by
  intro H
  obtain ⟨s, run, hsockets⟩ := exists_of_replay (handle H)
    (fun s e _ => s.Enabled e ∧ s.Orderly H e) (create 1 [{ id := 0 }, { id := 2 }])
    [.start (fun p => if p = 0 then some 5 else none), .connected 5 (some 0) 0, .accepted 1 6,
      .received 1 (handshake 2), .written 0, .readFailed 0, .released 0,
      .reconnectTimer (some 0) (some 5), .connected 5 (some 0) 0]
    (P := fun s => s.socketToPeerId.toList = [(5, 0), (6, 2)]) (by decide +kernel)
  exact ⟨s, run, hsockets, (bookkeeping_exact H (by simp) run).1⟩

/-- Replica 1 connects to replica 0 twice. Both descriptors are mapped to it,
and when the first connection is lost, it counts as disconnected although the
second is open. -/
theorem second_handshake :
    let H : Bytes → UInt128 := fun bs => ⟨0, bs.foldl (fun n b => n + b.toUInt64) 0⟩
    ∃ s s', Steps (handle H) (fun s e _ => s.Enabled e) (create 0 [{ id := 1 }]) s
      ∧ Steps (handle H) (fun s e _ => s.Enabled e) s s'
      ∧ s.socketToPeerId.toList = [(5, 1), (6, 1)] ∧ s.connectionOf 1 = some 1 ∧ ¬s.Exact
      ∧ s'.connectionOf 1 = none ∧ (s'.connection 1).socketFd = 6 := by
  intro H
  obtain ⟨s, s', run, run', hsockets, hconn, hfd, hlost, hopen⟩ := exists_of_replay₂ (handle H)
    (fun s e _ => s.Enabled e) (create 0 [{ id := 1 }])
    [.accepted 0 5, .received 0 (handshake 1), .accepted 1 6, .received 1 (handshake 1)]
    [.readFailed 0]
    (P := fun s s' => s.socketToPeerId.toList = [(5, 1), (6, 1)] ∧ s.connectionOf 1 = some 1
      ∧ (s.connection 1).socketFd = 6 ∧ s'.connectionOf 1 = none
      ∧ (s'.connection 1).socketFd = 6) (by decide +kernel)
  refine ⟨s, s', run, run', hsockets, hconn, ?_, hlost, hopen⟩
  intro hexact
  have hmapped : s.socketToPeerId[(5 : Int)]? = some 1 :=
    Std.ExtTreeMap.mem_toList_iff_getElem?_eq_some.mp (hsockets ▸ List.mem_cons_self)
  rw [exact_iff] at hexact
  obtain ⟨conn, hconn', hfd'⟩ := socketOf_eq_some.mp ((hexact 1 5).mp hmapped)
  obtain rfl : 1 = conn := Option.some.inj (hconn.symm.trans hconn')
  rw [hfd] at hfd'
  cases hfd'

end ReplicaManager

end VsrKv
