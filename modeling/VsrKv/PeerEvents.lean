import VsrKv.SocketTables

/-!
# What the callbacks do to the tables

For each event whether the tables agree after it, given that they agreed
before: the connects and their callbacks, the loss of a connection, what is
read from one, and `remove_peer`.
-/

namespace VsrKv

open Function PartialInverse

namespace ReplicaManager

variable {H : Bytes → UInt128} {s s' : ReplicaManager} {p k fd : Int} {peer : Peer}
  {conn : Nat} {r : IoRequest}

/-! ## Connecting -/

theorem Kept.congr (h : s.Kept) (hpeers : s'.peersById = s.peersById)
    (hsockets : s'.socketToPeerId = s.socketToPeerId) (hconnection : s'.connection = s.connection)
    (hobjects : s'.objects = s.objects) (hrequests : s'.requests = s.requests) : s'.Kept where
  toAgreed := h.toAgreed.congr hpeers hsockets hconnection hobjects
  toOwned := h.toOwned.congr hconnection hobjects hrequests

theorem Kept.complete (h : s.Kept) (r : IoRequest) : (s.complete r).Kept where
  toAgreed := h.toAgreed.congr rfl rfl rfl rfl
  toOwned := h.toOwned.complete r

theorem Kept.submit (h : s.Kept) (hsock : r.sock? = none) (hconn : ∀ c ∈ r.conn?, c ∈ s.objects) :
    (s.submit r).Kept where
  toAgreed := h.toAgreed.congr rfl rfl rfl rfl
  toOwned := h.toOwned.submit hsock hconn

theorem Unused.complete (h : s.Unused fd) (r : IoRequest) : (s.complete r).Unused fd :=
  ⟨h.1, h.2.1, fun hmem => h.2.2 ((socks_complete_sublist s r).subset hmem)⟩

theorem connectionOf_of_state (hpeer : s.peersById[k]? = some peer)
    (hstate : peer.state ≠ .connected) : s.connectionOf k = none := by
  simp [connectionOf, hpeer, hstate]

theorem Agreed.connection_eq_none (h : s.Agreed) (hpeer : s.peersById[k]? = some peer)
    (hstate : peer.state ≠ .connected) : peer.connection = none := by
  by_contra hne
  exact hstate ((h.filed k peer hpeer).2.mpr hne)

/-- A peer that is not connected is marked as connecting, or as disconnected. -/
theorem Kept.setState (h : s.Kept) (hpeer : s.peersById[k]? = some peer)
    (hold : peer.state ≠ .connected) {state : PeerState} (hstate : state ≠ .connected) :
    (s.setPeer k { peer with state }).Kept where
  toAgreed := by
    have hconn : peer.connection = none := h.toAgreed.connection_eq_none hpeer hold
    exact h.toAgreed.setPeer (connectionOf_of_state hpeer hold) (h.filed k peer hpeer).1 hstate
      hconn
  toOwned := h.toOwned.congr rfl rfl rfl

theorem Kept.scheduleReconnect (h : s.Kept) (k : Int) : (s.scheduleReconnect k).Kept :=
  h.submit rfl (by simp [IoRequest.conn?])

theorem Kept.attemptConnection (h : s.Kept) (hpeer : s.peersById[k]? = some peer)
    {sock : Option Int} (hsock : ∀ fd ∈ sock, s.Unused fd) :
    (s.attemptConnection k peer sock).Kept := by
  unfold ReplicaManager.attemptConnection
  split
  · exact h
  · rename_i hstate
    have hidle : peer.state ≠ .connected := by
      intro hconnected
      exact hstate (by rw [hconnected]; decide)
    cases sock with
    | none => exact (h.setState hpeer hidle (by decide)).scheduleReconnect k
    | some fd =>
        have h' : (s.setPeer k { peer with state := .connecting }).Kept :=
          h.setState hpeer hidle (by decide)
        exact ⟨h'.toAgreed.congr rfl rfl rfl rfl,
          h'.toOwned.connect (hsock fd rfl) (some k)⟩

theorem Unused.attemptConnection (h : s.Unused fd) (k : Int) (peer : Peer) {sock : Option Int}
    (hsock : sock ≠ some fd) : (s.attemptConnection k peer sock).Unused fd := by
  unfold ReplicaManager.attemptConnection
  split
  · exact h
  · cases sock with
    | none =>
        refine ⟨h.1, h.2.1, ?_⟩
        rw [ReplicaManager.scheduleReconnect, socks_submit]
        exact h.2.2
    | some fd' =>
        refine ⟨h.1, h.2.1, ?_⟩
        rw [socks_submit]
        intro hmem
        rcases List.mem_cons.mp hmem with rfl | hold
        · exact hsock rfl
        · exact h.2.2 hold

/-- The loop of `connect_to_peers`, over peers still to come. -/
theorem Kept.connectToPeers_loop {sock : Int → Option Int} {ids : List Int} (h : s.Kept)
    (hdistinct : (ids.filterMap sock).Nodup) (hunused : ∀ fd ∈ ids.filterMap sock, s.Unused fd) :
    (ids.foldl (connectToPeer sock) s).Kept := by
  induction ids generalizing s with
  | nil => exact h
  | cons id ids ih =>
      have hrest : ∀ fd ∈ ids.filterMap sock, fd ∈ (id :: ids).filterMap sock := by
        intro fd hfd
        exact ((List.sublist_cons_self id ids).filterMap sock).subset hfd
      have hfirst : ∀ fd ∈ sock id, s.Unused fd := fun fd hfd =>
        hunused fd (List.mem_filterMap.mpr ⟨id, List.mem_cons_self, hfd⟩)
      have hdistinct' := hdistinct.sublist ((List.sublist_cons_self id ids).filterMap sock)
      rw [List.foldl_cons]
      unfold connectToPeer
      split
      · exact ih h hdistinct' fun fd hfd => hunused fd (hrest fd hfd)
      · rename_i peer hpeer
        split
        · refine ih (h.attemptConnection hpeer hfirst) hdistinct' ?_
          intro fd hfd
          refine (hunused fd (hrest fd hfd)).attemptConnection id peer ?_
          intro hsock
          rw [List.filterMap_cons_some hsock] at hdistinct
          exact (List.nodup_cons.mp hdistinct).1 hfd
        · exact ih h hdistinct' fun fd hfd => hunused fd (hrest fd hfd)

theorem Kept.addPeer {newPeer : Peer} {sock : Option Int} (h : s.Kept)
    (he : s.Enabled (.addPeer newPeer sock)) : (s.addPeer newPeer sock).Kept := by
  obtain ⟨hstate, hconn, hsock⟩ := he
  unfold ReplicaManager.addPeer
  split
  · exact h
  · rename_i hnew
    have hnone : s.connectionOf newPeer.id = none := by
      rw [connectionOf, Std.ExtTreeMap.getElem?_eq_none hnew, Option.bind_none]
    have h' : (s.setPeer newPeer.id newPeer).Kept :=
      ⟨h.toAgreed.setPeer hnone rfl (by rw [hstate]; decide) hconn,
        h.toOwned.congr rfl rfl rfl⟩
    have hfound : (s.setPeer newPeer.id newPeer).peersById[newPeer.id]? = some newPeer := by
      rw [getElem?_setPeer, if_pos rfl]
    dsimp only
    split
    · exact h'.attemptConnection hfound hsock
    · exact h'

theorem Agreed.connectionOf_eq_none_iff (h : s.Agreed) (hpeer : s.peersById[k]? = some peer) :
    s.connectionOf k = none ↔ peer.state ≠ .connected := by
  refine ⟨?_, connectionOf_of_state hpeer⟩
  intro hnone hstate
  obtain ⟨conn, hconn⟩ := Option.ne_none_iff_exists'.mp ((h.filed k peer hpeer).2.mp hstate)
  rw [connectionOf_eq_some.mpr ⟨peer, hpeer, hstate, hconn⟩] at hnone
  cases hnone

theorem Agreed.socketOf_ne (h : s.Agreed) (hfd : ∀ c ∈ s.objects, (s.connection c).socketFd ≠ fd)
    (p : Int) : s.socketOf p ≠ some fd := by
  intro hp
  obtain ⟨conn, hconn, hsocket⟩ := socketOf_eq_some.mp hp
  exact hfd conn (h.live p conn hconn).1 hsocket

/-- A descriptor has one owner, so a peer that is reached over it is connected
over its connection. -/
theorem Kept.socketOf_eq_iff (h : s.Kept) (hconn : conn ∈ s.objects) :
    s.socketOf p = some (s.connection conn).socketFd ↔ s.connectionOf p = some conn := by
  constructor
  · intro hp
    obtain ⟨c, hc, hfd⟩ := socketOf_eq_some.mp hp
    obtain ⟨hobject, hopen⟩ := h.live p c hc
    rw [← h.distinct c hobject conn hconn hopen hfd]
    exact hc
  · intro hp
    exact socketOf_eq_some.mpr ⟨conn, hp, rfl⟩

section

variable {sock : Int} {ref : Option Int}

theorem connects_onConnected (h : s.Kept) (hpeer : s.peersById[k]? = some peer)
    (hconn : conn ∉ s.objects) (r : IoRequest) :
    Connects s ((s.complete r).onConnected k peer sock conn) k conn sock where
  peers := ⟨peer, (h.filed k peer hpeer).1, rfl⟩
  sockets := by
    show s.socketToPeerId.insert sock peer.id = _
    rw [(h.filed k peer hpeer).1]
  socket := by
    show (update s.connection conn { socketFd := sock } conn).socketFd = sock
    rw [update_self]
  others c hc := by
    show (update s.connection conn { socketFd := sock } c).socketFd = _
    rw [update_of_ne (ne_of_mem_of_not_mem hc hconn)]
  objects := Finset.subset_insert ..
  object := Finset.mem_insert_self ..

theorem Kept.exact_onConnected_iff (h : s.Kept) (hr : .connect sock ref ∈ s.requests)
    (hpeer : s.peersById[k]? = some peer) (hconn : conn ∉ s.objects) :
    ((s.complete (.connect sock ref)).onConnected k peer sock conn).Exact
      ↔ peer.state ≠ .connected := by
  have hfree := h.toAgreed.socketOf_ne (h.toOwned.unused_complete hr).2.1
  rw [(connects_onConnected h hpeer hconn _).exact_iff h.toAgreed, socketOf_eq_none,
    h.toAgreed.connectionOf_eq_none_iff hpeer]
  simp [hfree k, h.exact.eq_none hfree]

theorem Kept.onConnected (h : s.Kept) (hr : .connect sock ref ∈ s.requests)
    (hpeer : s.peersById[k]? = some peer) (hconn : conn ∉ s.objects)
    (hstate : peer.state ≠ .connected) :
    ((s.complete (.connect sock ref)).onConnected k peer sock conn).Kept := by
  have hunused := h.toOwned.unused_complete hr
  have hagreed := (connects_onConnected h hpeer hconn (.connect sock ref)).agreed h.toAgreed
    (by have := hunused.1; omega) ((h.exact_onConnected_iff hr hpeer hconn).mpr hstate)
  have hregistered := (h.toOwned.complete (.connect sock ref)).registerNewConnection hconn hunused
  have howned := hregistered.submit (r := .write conn) rfl (by
    intro c hc
    obtain rfl : conn = c := Option.some.inj hc
    exact Finset.mem_insert_self ..)
  exact ⟨hagreed, howned.congr rfl rfl rfl⟩

theorem socketOf_setPeer_idle (s : ReplicaManager) (k : Int) (hstate : peer.state ≠ .connected) :
    (s.setPeer k peer).socketOf = update s.socketOf k none := by
  funext p
  rw [socketOf, connectionOf_setPeer, if_neg hstate]
  by_cases hp : p = k
  · subst hp
    simp
  · rw [update_of_ne hp, update_of_ne hp]
    rfl

theorem Kept.exact_onConnectFailed_iff (h : s.Kept) (hpeer : s.peersById[k]? = some peer)
    (r : IoRequest) :
    ((s.complete r).onConnectFailed k peer).Exact ↔ peer.state ≠ .connected := by
  have hiff : ((s.complete r).onConnectFailed k peer).Exact ↔ s.connectionOf k = none :=
    h.toAgreed.exact_forget_iff rfl (socketOf_setPeer_idle s k (by simp))
  rw [hiff, h.toAgreed.connectionOf_eq_none_iff hpeer]

theorem Kept.onConnectFailed (h : s.Kept) (hpeer : s.peersById[k]? = some peer)
    (hstate : peer.state ≠ .connected) (r : IoRequest) :
    ((s.complete r).onConnectFailed k peer).Kept :=
  ((h.complete r).setState hpeer hstate (by decide)).scheduleReconnect k

end

/-! ## Losing a connection -/

/-- The peer reached over `conn` is no longer connected, and the others are
what they were. -/
structure Loses (s s' : ReplicaManager) (conn : Nat) : Prop where
  kept : s'.Kept
  gone : ∀ p, s'.connectionOf p ≠ some conn
  others : ∀ (p : Int) (peer : Peer), s.peersById[p]? = some peer →
    peer.connection ≠ some conn → s'.peersById[p]? = some peer

theorem connectionOf_unregister (s : ReplicaManager) (p fd : Int) (peer : Peer) :
    (s.unregister p peer fd).connectionOf = update s.connectionOf p none := by
  have hset := connectionOf_setPeer s p { peer with state := .disconnected, connection := none }
  rw [if_neg (by simp)] at hset
  exact hset

theorem Kept.unregister (h : s.Kept) (hpeer : s.peersById[p]? = some peer)
    (hsocket : s.socketOf p = some fd) : (s.unregister p peer fd).Kept := by
  have hsockets : (s.unregister p peer fd).socketOf = update s.socketOf p none :=
    socketOf_setPeer_idle s p (by simp)
  refine ⟨⟨?_, h.filed.insert (h.filed p peer hpeer).1 (by simp), ?_⟩,
    h.toOwned.congr rfl rfl rfl⟩
  · rw [hsockets, ReplicaManager.unregister, PartialInverse.getElem?_erase]
    exact h.exact.clear hsocket
  · intro p' c hc
    rw [connectionOf_unregister] at hc
    by_cases hp : p' = p
    · subst hp
      rw [update_self] at hc
      cases hc
    · rw [update_of_ne hp] at hc
      exact h.live p' c hc

theorem Kept.loses_unregister (h : s.Kept) (hpeer : s.peersById[p]? = some peer)
    (hconn : s.connectionOf p = some conn) :
    Loses s (s.unregister p peer (s.connection conn).socketFd) conn := by
  have hsocket : s.socketOf p = some (s.connection conn).socketFd :=
    socketOf_eq_some.mpr ⟨conn, hconn, rfl⟩
  refine ⟨h.unregister hpeer hsocket, ?_, ?_⟩
  · intro p' hp'
    rw [connectionOf_unregister] at hp'
    by_cases hp : p' = p
    · subst hp
      rw [update_self] at hp'
      cases hp'
    · rw [update_of_ne hp] at hp'
      exact hp (h.exact.inj (socketOf_eq_some.mpr ⟨conn, hp', rfl⟩) hsocket)
  · intro p' peer' hpeer' hne
    show (s.setPeer p _).peersById[p']? = _
    rw [getElem?_setPeer, if_neg]
    · exact hpeer'
    · rintro rfl
      obtain rfl : peer = peer' := Option.some.inj (hpeer.symm.trans hpeer')
      obtain ⟨_, hfound, -, hover⟩ := connectionOf_eq_some.mp hconn
      rw [hpeer, Option.some.injEq] at hfound
      exact hne (hfound ▸ hover)

theorem Loses.scheduleReconnect (h : Loses s s' conn) (k : Int) :
    Loses s (s'.scheduleReconnect k) conn :=
  ⟨h.kept.scheduleReconnect k, h.gone, h.others⟩

theorem Kept.onDisconnect (h : s.Kept) (hconn : conn ∈ s.objects) :
    ∃ s', s.onDisconnect conn = some s' ∧ Loses s s' conn := by
  cases hindex : s.socketToPeerId[(s.connection conn).socketFd]? with
  | none =>
      refine ⟨s, by simp [ReplicaManager.onDisconnect, hindex], h, ?_, fun _ _ hpeer _ => hpeer⟩
      intro p hp
      have hback := (h.exact p _).mpr ((h.socketOf_eq_iff hconn).mpr hp)
      dsimp only at hback
      rw [hindex] at hback
      cases hback
  | some p =>
      have hc : s.connectionOf p = some conn :=
        (h.socketOf_eq_iff hconn).mp ((h.exact p _).mp hindex)
      obtain ⟨peer, hpeer, -, -⟩ := connectionOf_eq_some.mp hc
      have hlost := h.loses_unregister hpeer hc
      by_cases hlower : peer.id < s.selfId
      · refine ⟨_, ?_, hlost.scheduleReconnect p⟩
        simp only [ReplicaManager.onDisconnect, hindex, hpeer]
        exact congrArg some (if_pos hlower)
      · refine ⟨_, ?_, hlost⟩
        simp only [ReplicaManager.onDisconnect, hindex, hpeer]
        exact congrArg some (if_neg hlower)

theorem Kept.removeConnection (h : s.Kept) (hconn : conn ∈ s.objects) :
    ∃ s', s.removeConnection conn = some s' ∧ Loses s s' conn := by
  obtain ⟨s₁, hs₁, hkept, hgone, hothers⟩ := h.onDisconnect hconn
  exact ⟨_, congrArg (Option.map _) hs₁, hkept.congr rfl rfl rfl rfl rfl, hgone, hothers⟩

/-! ## Reading -/

theorem unidentified_of_handshakeId {data : Bytes} {id : Int}
    (h : s.handshakeId conn data = some id) : (s.connection conn).state = .unidentified := by
  unfold handshakeId at h
  split at h
  · rename_i hshake
    exact hshake.1
  · cases h

theorem onRead_of_handshakeId {data : Bytes} {id : Int} (h : s.handshakeId conn data = some id) :
    s.toTcpServer.onRead H conn data
      = ((s.toTcpServer.setState conn .peer).registerIdentifiedPeer id conn, []) := by
  have hstate := unidentified_of_handshakeId h
  unfold handshakeId at h
  split at h
  · rename_i hshake
    unfold TcpServer.onRead
    simp only [hstate, hshake.2, if_true, h]
  · cases h

/-- A read that is no handshake leaves a connection that is identified, and
goes to the protocol handler. -/
theorem onRead_of_no_handshake {data : Bytes} (h : s.handshakeId conn data = none) :
    ∃ state, state ≠ .unidentified ∧ s.toTcpServer.onRead H conn data
      = (s.toTcpServer.setState conn state).onMessage H conn data := by
  by_cases hstate : (s.connection conn).state = .unidentified
  · refine ⟨.client, by simp, ?_⟩
    unfold TcpServer.onRead
    simp only [hstate]
    by_cases hword : handshakeWord.isPrefixOf data = true
    · have hid : stoi (data.drop 13) = none := by
        simpa [handshakeId, hstate, hword] using h
      rw [if_pos hword, hid]
    · rw [if_neg hword]
  · refine ⟨(s.connection conn).state, hstate, ?_⟩
    have hself : s.toTcpServer.setState conn (s.connection conn).state = s.toTcpServer := by
      simp [TcpServer.setState, TcpServer.setConnection]
    rw [TcpServer.onRead_of_known hstate, hself]

theorem connection_onMessage (s : TcpServer) (conn : Nat) (data : Bytes) :
    (s.onMessage H conn data).1.connection
      = update s.connection conn
          { s.connection conn with
            socketFd :=
              if (handleRawData H (s.buffer conn) data).2.isSome then
                (s.connection conn).socketFd
              else -1 } := by
  unfold TcpServer.onMessage TcpServer.buffer
  by_cases hclosed : (s.connection conn).socketFd = -1
  · simp only [hclosed, if_true, ite_self]
    rw [← hclosed, update_eq_self]
  · simp only [hclosed, if_false]
    cases hdata : handleRawData H
        (some ((s.connectionBuffers[(s.connection conn).socketFd]?).getD [])) data with
    | mk ms rest =>
        cases rest with
        | none => simp [TcpServer.closeSocket, TcpServer.setConnection]
        | some rest => simp

theorem buffer_setState (s : TcpServer) (conn : Nat) (state : ConnectionState) :
    (s.setState conn state).buffer conn = s.buffer conn := by
  simp [TcpServer.buffer, TcpServer.setState]

theorem connection_onMessage_setState (s : TcpServer) (conn : Nat) (state : ConnectionState)
    (data : Bytes) :
    ((s.setState conn state).onMessage H conn data).1.connection
      = update s.connection conn
          { socketFd :=
              if (handleRawData H (s.buffer conn) data).2.isSome then
                (s.connection conn).socketFd
              else -1
            state } := by
  rw [connection_onMessage, buffer_setState]
  simp [TcpServer.setState, TcpServer.setConnection]

theorem Kept.object_of_request (h : s.Kept) (hr : r ∈ s.requests) (hconn : r.conn? = some conn) :
    conn ∈ s.objects :=
  h.referred conn (List.mem_filterMap.mpr ⟨r, hr, hconn⟩)

/-- Whoever reads from a connection knows what it is. -/
theorem onRead_connection (s : ReplicaManager) (conn : Nat) (data : Bytes) :
    ∃ c : TcpConnection,
      (s.toTcpServer.onRead H conn data).1.connection = update s.connection conn c
        ∧ c.state ≠ .unidentified
        ∧ (c.socketFd = (s.connection conn).socketFd ∨ c.socketFd = -1) := by
  cases hid : s.handshakeId conn data with
  | none =>
      obtain ⟨state, hstate, hread⟩ := onRead_of_no_handshake (H := H) hid
      rw [hread, connection_onMessage_setState]
      refine ⟨_, rfl, hstate, ?_⟩
      dsimp only
      split
      · exact Or.inl rfl
      · exact Or.inr rfl
  | some id =>
      rw [onRead_of_handshakeId hid]
      unfold TcpServer.registerIdentifiedPeer
      split
      · rw [TcpServer.closeSocket, TcpServer.setState, TcpServer.connection_setConnection]
        exact ⟨_, update_idem .., by simp, Or.inr rfl⟩
      · exact ⟨_, rfl, by simp, Or.inl rfl⟩

theorem Kept.owned_onReceived (h : s.Kept) (hr : .read conn ∈ s.requests) (data : Bytes) :
    ((s.complete (.read conn)).onReceived H conn data).Owned := by
  have howned := h.toOwned.complete (.read conn)
  have hobject := h.object_of_request hr rfl
  obtain ⟨c, hconnection, hstate, hsocket⟩ := onRead_connection (H := H) s conn data
  refine howned.shrink (Finset.Subset.refl _) ?_ ?_ ?_
  · intro c' _
    show Ages (s.connection c') ((s.toTcpServer.onRead H conn data).1.connection c')
    rw [hconnection]
    by_cases hc : c' = conn
    · subst hc
      rw [update_self]
      exact ⟨fun _ => hstate, hsocket.imp_right fun hclosed => ⟨hclosed, hstate⟩⟩
    · rw [update_of_ne hc]
      exact Ages.refl _
  · rw [onReceived, socks_submit]
    exact List.Sublist.refl _
  · intro c' hc'
    rw [onReceived, conns_submit] at hc'
    rcases List.mem_cons.mp hc' with rfl | hold
    · exact hobject
    · exact howned.referred c' hold

theorem Kept.isPeerConnection_iff (h : s.Kept) (hconn : conn ∈ s.objects) :
    s.isPeerConnection conn = true ↔ ∃ p, s.connectionOf p = some conn := by
  rw [isPeerConnection, Std.ExtTreeMap.contains_eq_isSome_getElem?, Option.isSome_iff_exists]
  exact exists_congr fun p => (h.exact p _).trans (h.socketOf_eq_iff hconn)

theorem isPeerConnection_eq_false : s.isPeerConnection conn = false
    ↔ s.socketToPeerId[(s.connection conn).socketFd]? = none := by
  rw [isPeerConnection, Std.ExtTreeMap.contains_eq_isSome_getElem?, Option.isSome_eq_false_iff,
    Option.isNone_iff_eq_none]

/-- A connection may be closed by whoever reads from it just if it is not a
peer's. -/
theorem Kept.exact_iff_of_read (h : s.Kept) (hconn : conn ∈ s.objects) {c : TcpConnection}
    (hpeers : s'.peersById = s.peersById) (hsockets : s'.socketToPeerId = s.socketToPeerId)
    (hobjects : s'.objects = s.objects) (hconnection : s'.connection = update s.connection conn c)
    (hsocket : c.socketFd = (s.connection conn).socketFd ∨ c.socketFd = -1) :
    (s'.Exact ↔ (s.isPeerConnection conn = true → c.socketFd ≠ -1))
      ∧ (s'.Exact → s'.Agreed) := by
  have hclosed : (s.isPeerConnection conn = true ∧ c.socketFd = -1) → ¬s'.Exact := by
    rintro ⟨hpeer, hclosed⟩
    obtain ⟨p, hp⟩ := (h.isPeerConnection_iff hconn).mp hpeer
    refine h.toAgreed.not_exact_of_closed hpeers hsockets hp ?_
    rw [hconnection, update_self, hclosed]
  have hopen : (s.isPeerConnection conn = true → c.socketFd ≠ -1) → s'.Agreed := by
    intro hopen
    refine h.toAgreed.of_eq hpeers hsockets ?_
    intro p c' hc'
    rw [hobjects, hconnection]
    refine ⟨(h.live p c' hc').1, ?_⟩
    by_cases heq : c' = conn
    · subst heq
      rw [update_self]
      exact hsocket.resolve_right (hopen ((h.isPeerConnection_iff hconn).mpr ⟨p, hc'⟩))
    · rw [update_of_ne heq]
  have hiff : s'.Exact ↔ (s.isPeerConnection conn = true → c.socketFd ≠ -1) := by
    constructor
    · intro hexact hpeer heq
      exact hclosed ⟨hpeer, heq⟩ hexact
    · intro hsafe
      exact exact_iff.mpr (hopen hsafe).exact
  exact ⟨hiff, fun hexact => hopen (hiff.mp hexact)⟩

theorem connects_onReceived (h : s.Kept) {data : Bytes} {id : Int} (hconn : conn ∈ s.objects)
    (hid : s.handshakeId conn data = some id) (hpeer : s.peersById[id]? = some peer)
    (r : IoRequest) :
    Connects s ((s.complete r).onReceived H conn data) id conn (s.connection conn).socketFd := by
  have hread : (s.toTcpServer.onRead H conn data).1
      = (s.toTcpServer.setState conn .peer).registerIdentifiedPeer id conn := by
    rw [onRead_of_handshakeId hid]
  have hpeer' : (s.toTcpServer.setState conn .peer).peersById[id]? = some peer := hpeer
  simp only [TcpServer.registerIdentifiedPeer, hpeer'] at hread
  have hfd : ∀ c, ((s.toTcpServer.setState conn .peer).connection c).socketFd
      = (s.connection c).socketFd := by
    intro c
    rw [TcpServer.setState, TcpServer.setConnection]
    by_cases hc : c = conn
    · subst hc
      dsimp only
      rw [update_self]
    · dsimp only
      rw [update_of_ne hc]
  refine ⟨⟨peer, (h.filed id peer hpeer).1, ?_⟩, ?_, ?_, ?_, Finset.Subset.refl _, hconn⟩
  · exact congrArg TcpServer.peersById hread
  · refine (congrArg TcpServer.socketToPeerId hread).trans ?_
    dsimp only
    rw [hfd, (h.filed id peer hpeer).1]
    rfl
  · show ((s.toTcpServer.onRead H conn data).1.connection conn).socketFd = _
    rw [hread]
    exact hfd conn
  · intro c _
    show ((s.toTcpServer.onRead H conn data).1.connection c).socketFd = _
    rw [hread]
    exact hfd c

section

variable {data : Bytes}

theorem Kept.onReceived_message (h : s.Kept) (hobject : conn ∈ s.objects)
    (hid : s.handshakeId conn data = none) (r : IoRequest) :
    (((s.complete r).onReceived H conn data).Exact ↔ s.OrderlyRead H conn data none)
      ∧ (((s.complete r).onReceived H conn data).Exact →
        ((s.complete r).onReceived H conn data).Agreed) := by
  obtain ⟨state, -, hread⟩ := onRead_of_no_handshake (H := H) hid
  obtain ⟨⟨hpeers, hsockets, -, -⟩, -, -⟩ :=
    TcpServer.onMessage_spec (H := H) (s.toTcpServer.setState conn state) conn data
  have hconnection := connection_onMessage_setState (H := H) s.toTcpServer conn state data
  rw [← hread] at hpeers hsockets hconnection
  generalize hu : (s.complete r).onReceived H conn data = u
  obtain ⟨hiff, hagreed⟩ : (u.Exact ↔ _) ∧ (u.Exact → u.Agreed) := by
    subst hu
    refine h.exact_iff_of_read hobject hpeers hsockets rfl hconnection ?_
    dsimp only
    split
    · exact Or.inl rfl
    · exact Or.inr rfl
  refine ⟨hiff.trans (forall_congr' fun hpeer => ?_), hagreed⟩
  -- A peer's connection was open, so it is closed only by this read.
  obtain ⟨p, hp⟩ := (h.isPeerConnection_iff hobject).mp hpeer
  rw [ite_ne_right_iff, and_iff_left (h.live p conn hp).2]

/-- A handshake with an id that is not a peer's closes the connection. -/
theorem Kept.onReceived_stranger (h : s.Kept) (hobject : conn ∈ s.objects) {id : Int}
    (hid : s.handshakeId conn data = some id) (hunknown : id ∉ s.peersById) (r : IoRequest) :
    (((s.complete r).onReceived H conn data).Exact ↔ s.isPeerConnection conn = false)
      ∧ (((s.complete r).onReceived H conn data).Exact →
        ((s.complete r).onReceived H conn data).Agreed) := by
  have hread := onRead_of_handshakeId (H := H) hid
  have hnone : (s.toTcpServer.setState conn .peer).peersById[id]? = none :=
    Std.ExtTreeMap.getElem?_eq_none hunknown
  simp only [TcpServer.registerIdentifiedPeer, hnone] at hread
  have hpeers : (s.toTcpServer.onRead H conn data).1.peersById = s.peersById := by
    rw [hread]
    rfl
  have hsockets : (s.toTcpServer.onRead H conn data).1.socketToPeerId = s.socketToPeerId := by
    rw [hread]
    rfl
  have hconnection : (s.toTcpServer.onRead H conn data).1.connection
      = update s.connection conn { socketFd := -1, state := .peer } := by
    rw [hread]
    simp [TcpServer.closeSocket, TcpServer.setState, TcpServer.setConnection]
  generalize hu : (s.complete r).onReceived H conn data = u
  obtain ⟨hiff, hagreed⟩ : (u.Exact ↔ _) ∧ (u.Exact → u.Agreed) := by
    subst hu
    exact h.exact_iff_of_read hobject hpeers hsockets rfl hconnection (Or.inr rfl)
  exact ⟨hiff.trans (by simp), hagreed⟩

theorem Kept.onReceived_handshake (h : s.Kept) (hobject : conn ∈ s.objects) {id : Int}
    (hid : s.handshakeId conn data = some id) (hknown : id ∈ s.peersById) (r : IoRequest) :
    (((s.complete r).onReceived H conn data).Exact
        ↔ s.connectionOf id = some conn
          ∨ s.connectionOf id = none ∧ s.isPeerConnection conn = false)
      ∧ (((s.complete r).onReceived H conn data).Exact →
        ((s.complete r).onReceived H conn data).Agreed) := by
  obtain ⟨peer, hpeer⟩ := Option.isSome_iff_exists.mp
    (Std.ExtTreeMap.mem_iff_isSome_getElem?.mp hknown)
  have hconnects := connects_onReceived (H := H) h hobject hid hpeer r
  have hopen : (s.connection conn).socketFd ≠ -1 := by
    intro hclosed
    exact h.known conn hobject hclosed (unidentified_of_handshakeId hid)
  refine ⟨(hconnects.exact_iff h.toAgreed).trans ?_, hconnects.agreed h.toAgreed hopen⟩
  rw [h.socketOf_eq_iff hobject, socketOf_eq_none, isPeerConnection_eq_false, or_comm]

/-- What a read does to the tables. -/
theorem Kept.onReceived_iff (h : s.Kept) (hr : .read conn ∈ s.requests) (data : Bytes) :
    (((s.complete (.read conn)).onReceived H conn data).Exact ↔ s.Orderly H (.received conn data))
      ∧ (((s.complete (.read conn)).onReceived H conn data).Exact →
        ((s.complete (.read conn)).onReceived H conn data).Agreed) := by
  have hobject := h.object_of_request hr rfl
  cases hid : s.handshakeId conn data with
  | none =>
      rw [Orderly, hid]
      exact h.onReceived_message hobject hid _
  | some id =>
      rw [Orderly, hid, OrderlyRead]
      split
      · rename_i hknown
        exact h.onReceived_handshake hobject hid hknown _
      · rename_i hunknown
        exact h.onReceived_stranger hobject hid hunknown _

end

/-! ## Peers and connections that go -/

/-- A peer is erased, and its socket stays in the other table. -/
theorem Kept.connectionOf_of_exact_removePeer (h : s.Kept)
    (hexact : (s.removePeer k).Exact) : s.connectionOf k = none := by
  unfold ReplicaManager.removePeer at hexact
  have herased : ∀ t : ReplicaManager, t.peersById = s.peersById →
      t.socketToPeerId = s.socketToPeerId → (t.erasePeer k).Exact → s.connectionOf k = none := by
    intro t hpeers hsockets hexact
    rw [exact_iff, show (t.erasePeer k).socketToPeerId = _ from hsockets] at hexact
    have hsame : s.socketOf k = (t.erasePeer k).socketOf k :=
      congrFun (h.exact.left_unique hexact) k
    rw [← socketOf_eq_none, hsame, socketOf_eq_none, connectionOf_erasePeer, update_self]
  split at hexact
  · rename_i hpeer
    simp [connectionOf, hpeer]
  · split at hexact
    · exact herased s rfl rfl hexact
    · exact herased (s.closeSocket _) rfl rfl hexact

theorem Kept.erasePeer (h : s.Kept) (hnone : s.connectionOf k = none) : (s.erasePeer k).Kept := by
  have hsame : (s.erasePeer k).connectionOf = s.connectionOf := by
    rw [connectionOf_erasePeer, ← hnone, update_eq_self]
  refine ⟨⟨?_, ?_, hsame ▸ h.live⟩, h.toOwned.shrink (Finset.Subset.refl _)
    (fun _ _ => Ages.refl _) ?_ ?_⟩
  · rw [socketOf_congr hsame fun _ _ _ => rfl]
    exact h.exact
  · intro p peer hpeer
    rw [ReplicaManager.erasePeer, Std.ExtTreeMap.getElem?_erase] at hpeer
    split at hpeer
    · cases hpeer
    · exact h.filed p peer hpeer
  · rw [socks_erasePeer]
  · rw [conns_erasePeer]
    exact h.referred

theorem Kept.removePeer (h : s.Kept) (hnone : s.connectionOf k = none) :
    (s.removePeer k).Kept := by
  unfold ReplicaManager.removePeer
  split
  · exact h
  · rename_i peer hpeer
    rw [h.toAgreed.connection_eq_none hpeer
      ((h.toAgreed.connectionOf_eq_none_iff hpeer).mp hnone)]
    exact h.erasePeer hnone

theorem Kept.released (h : s.Kept) (he : s.Enabled (.released conn)) :
    ({ s.closeSocket conn with objects := s.objects.erase conn } : ReplicaManager).Kept := by
  obtain ⟨-, -, hpeers, hconns⟩ := he
  have hold : ∀ c, c ≠ conn → (s.closeSocket conn).connection c = s.connection c :=
    fun c hc => update_of_ne hc ..
  constructor
  · refine h.toAgreed.of_eq rfl rfl ?_
    intro p c hc
    have hne : c ≠ conn := by
      rintro rfl
      obtain ⟨peer, hpeer, -, hover⟩ := connectionOf_eq_some.mp hc
      exact hpeers (p, peer) (Std.ExtTreeMap.mem_toList_iff_getElem?_eq_some.mpr hpeer) hover
    exact ⟨Finset.mem_erase.mpr ⟨hne, (h.live p c hc).1⟩, by rw [hold c hne]⟩
  · refine h.toOwned.shrink (Finset.erase_subset ..) ?_ (List.Sublist.refl _) ?_
    · intro c hc
      dsimp only
      rw [hold c (Finset.ne_of_mem_erase hc)]
      exact Ages.refl _
    · intro c hc
      have hne : c ≠ conn := by
        rintro rfl
        exact hconns hc
      exact Finset.mem_erase.mpr ⟨hne, h.referred c hc⟩

end ReplicaManager

end VsrKv
