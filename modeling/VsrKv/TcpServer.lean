import VsrKv.Decimal
import VsrKv.ProtocolHandler

/-!
# Peers and clients at the listening socket

`TcpServer::start_reading` and `ReplicaManager::register_identified_peer`.
A peer that connects sends `HANDSHAKE_ID:` and its id first, and the
server tells it from a client by looking at the first read: if that
begins with the word, what follows is the id, and the whole read is
spent on it; if not, the connection is a client's for good. Messages
have a buffer to wait in until the rest of them arrives
(`handle_raw_data`), the handshake has none.

So a peer is known for what it is, and gets all its messages through,
just if its handshake arrives in a read of its own
(`identified_iff_handshake_read_alone`).

Connection objects have an address, which is what the source's shared
pointers stand for.
-/

namespace VsrKv

/-! ## Connections and peers -/

/-- `TcpConnection::State`. -/
inductive ConnectionState where
  | unidentified
  | peer
  | client
deriving Repr, DecidableEq

/-- The descriptor is `-1` once the socket is closed. -/
structure TcpConnection where
  socketFd : Int
  state : ConnectionState := .unidentified
deriving Repr, DecidableEq

/-- `Peer::State`. -/
inductive PeerState where
  | disconnected
  | connecting
  | connected
deriving Repr, DecidableEq

structure Peer where
  id : Int
  state : PeerState := .disconnected
  connection : Option Nat := none
deriving Repr, DecidableEq

/-- The server with its replica manager and its protocol handler. -/
structure TcpServer where
  connection : Nat → TcpConnection
  peersById : StdMap Int Peer := ∅
  socketToPeerId : StdMap Int Int := ∅
  connectionBuffers : StdMap Int Bytes := ∅

/-- `std::stoi`: `none` where it throws, for want of digits or because the
number is no `int`. -/
def stoi (str : Bytes) : Option Int :=
  (Decimal.readInt str).filter fun n => -2 ^ 31 ≤ n && n < 2 ^ 31

/-- `"HANDSHAKE_ID:"`. -/
def handshakeWord : Bytes := [72, 65, 78, 68, 83, 72, 65, 75, 69, 95, 73, 68, 58]

/-- `send_handshake` of the replica with this id. -/
def handshake (selfId : Int) : Bytes := handshakeWord ++ Decimal.writeInt selfId

namespace TcpServer

def setConnection (s : TcpServer) (conn : Nat) (c : TcpConnection) : TcpServer :=
  { s with connection := Function.update s.connection conn c }

@[simp] theorem connection_setConnection (s : TcpServer) (conn : Nat) (c : TcpConnection) :
    (s.setConnection conn c).connection conn = c := Function.update_self ..

@[simp] theorem peersById_setConnection (s : TcpServer) (conn : Nat) (c : TcpConnection) :
    (s.setConnection conn c).peersById = s.peersById := rfl

@[simp] theorem socketToPeerId_setConnection (s : TcpServer) (conn : Nat) (c : TcpConnection) :
    (s.setConnection conn c).socketToPeerId = s.socketToPeerId := rfl

@[simp] theorem connectionBuffers_setConnection (s : TcpServer) (conn : Nat)
    (c : TcpConnection) : (s.setConnection conn c).connectionBuffers = s.connectionBuffers := rfl

def setState (s : TcpServer) (conn : Nat) (state : ConnectionState) : TcpServer :=
  s.setConnection conn { s.connection conn with state }

def closeSocket (s : TcpServer) (conn : Nat) : TcpServer :=
  s.setConnection conn { s.connection conn with socketFd := -1 }

/-- `handle_new_connection`, with a connection object made at `conn`. -/
def handleNewConnection (s : TcpServer) (conn : Nat) (clientSocket : Int) : TcpServer :=
  s.setConnection conn { socketFd := clientSocket }

def registerIdentifiedPeer (s : TcpServer) (peerId : Int) (conn : Nat) : TcpServer :=
  match s.peersById[peerId]? with
  | none => s.closeSocket conn
  | some peer =>
      { s with
        peersById :=
          s.peersById.insert peerId { peer with state := .connected, connection := some conn }
        socketToPeerId := s.socketToPeerId.insert (s.connection conn).socketFd peer.id }

section

variable (H : Bytes → UInt128)

/-- `on_message_`, which is `handle_raw_data` on the buffer kept for the
connection's descriptor. -/
def onMessage (s : TcpServer) (conn : Nat) (data : Bytes) : TcpServer × List VsrMessage :=
  let socketFd := (s.connection conn).socketFd
  if socketFd = -1 then (s, [])
  else
    let buffer := (s.connectionBuffers[socketFd]?).getD []
    match handleRawData H (some buffer) data with
    | (ms, some rest) =>
        ({ s with connectionBuffers := s.connectionBuffers.insert socketFd rest }, ms)
    | (ms, none) =>
        ({ s with connectionBuffers := s.connectionBuffers.erase socketFd }.closeSocket conn, ms)

/-- What `start_reading` does with the bytes of a completed read. -/
def onRead (s : TcpServer) (conn : Nat) (data : Bytes) : TcpServer × List VsrMessage :=
  match (s.connection conn).state with
  | .unidentified =>
      if handshakeWord.isPrefixOf data then
        match stoi (data.drop 13) with
        | some peerId => ((s.setState conn .peer).registerIdentifiedPeer peerId conn, [])
        | none => (s.setState conn .client).onMessage H conn data
      else (s.setState conn .client).onMessage H conn data
  | _ => s.onMessage H conn data

/-- The reads of one connection, in order, and the messages they hand to the
protocol layer. -/
def onReads (s : TcpServer) (conn : Nat) : List Bytes → TcpServer × List VsrMessage
  | [] => (s, [])
  | data :: reads =>
      let (s', ms) := s.onRead H conn data
      let (s'', ms') := s'.onReads conn reads
      (s'', ms ++ ms')

end

variable {H : Bytes → UInt128} {s s' s'' : TcpServer} {conn : Nat} {fd k : Int}

/-! ## Connections that are known -/

/-- What the protocol handler has of a connection: its buffer while the
socket is open. -/
def buffer (s : TcpServer) (conn : Nat) : Option Bytes :=
  if (s.connection conn).socketFd = -1 then none
  else some ((s.connectionBuffers[(s.connection conn).socketFd]?).getD [])

/-- Nobody is registered or forgotten, and the connection stays what it is,
but may be closed. -/
structure Passes (s s' : TcpServer) (conn : Nat) : Prop where
  peers : s'.peersById = s.peersById
  sockets : s'.socketToPeerId = s.socketToPeerId
  state : (s'.connection conn).state = (s.connection conn).state
  socket : (s'.connection conn).socketFd = (s.connection conn).socketFd
    ∨ (s'.connection conn).socketFd = -1

theorem Passes.refl (s : TcpServer) (conn : Nat) : Passes s s conn :=
  ⟨rfl, rfl, rfl, Or.inl rfl⟩

theorem Passes.trans (h : Passes s s' conn) (h' : Passes s' s'' conn) : Passes s s'' conn := by
  refine ⟨h'.peers.trans h.peers, h'.sockets.trans h.sockets, h'.state.trans h.state, ?_⟩
  rcases h'.socket with heq | hclosed
  · rw [heq]
    exact h.socket
  · exact Or.inr hclosed

/-- `handle_raw_data` at the server is `handle_raw_data` on the buffer. -/
theorem onMessage_spec (s : TcpServer) (conn : Nat) (data : Bytes) :
    Passes s (s.onMessage H conn data).1 conn
      ∧ (s.onMessage H conn data).2 = (handleRawData H (s.buffer conn) data).1
      ∧ (s.onMessage H conn data).1.buffer conn = (handleRawData H (s.buffer conn) data).2 := by
  unfold onMessage buffer
  by_cases hclosed : (s.connection conn).socketFd = -1
  · simp only [hclosed, if_true]
    exact ⟨.refl s conn, rfl, rfl⟩
  · simp only [hclosed, if_false]
    cases hdata : handleRawData H
        (some ((s.connectionBuffers[(s.connection conn).socketFd]?).getD [])) data with
    | mk ms rest =>
        cases rest with
        | none =>
            refine ⟨⟨rfl, rfl, ?_, Or.inr ?_⟩, rfl, ?_⟩ <;> simp [closeSocket, setConnection]
        | some rest =>
            refine ⟨⟨rfl, rfl, rfl, Or.inl rfl⟩, rfl, ?_⟩
            simp [hclosed]

theorem onRead_of_known (hknown : (s.connection conn).state ≠ .unidentified) (data : Bytes) :
    s.onRead H conn data = s.onMessage H conn data := by
  unfold onRead
  split
  · rename_i h
    exact absurd h hknown
  · rfl

/-- Once a connection is a peer's or a client's, all its bytes go to the
protocol handler. -/
theorem onReads_of_known (hknown : (s.connection conn).state ≠ .unidentified)
    (reads : List Bytes) :
    Passes s (s.onReads H conn reads).1 conn
      ∧ (s.onReads H conn reads).2 = (handleReads H (s.buffer conn) reads).1
      ∧ (s.onReads H conn reads).1.buffer conn = (handleReads H (s.buffer conn) reads).2 := by
  induction reads generalizing s with
  | nil => exact ⟨.refl s conn, rfl, rfl⟩
  | cons data reads ih =>
      obtain ⟨hpasses, hms, hbuffer⟩ := onMessage_spec (H := H) s conn data
      have hknown' : ((s.onMessage H conn data).1.connection conn).state ≠ .unidentified := by
        rw [hpasses.state]
        exact hknown
      obtain ⟨hpasses', hms', hbuffer'⟩ := ih hknown'
      rw [onReads, onRead_of_known hknown, handleReads_cons]
      refine ⟨hpasses.trans hpasses', ?_, ?_⟩
      · show _ ++ _ = _ ++ _
        rw [hms, hms', hbuffer]
      · show ((s.onMessage H conn data).1.onReads H conn reads).1.buffer conn = _
        rw [hbuffer', hbuffer]

/-! ## The first read -/

/-- A connection that has just been accepted: no peer has it yet, and nothing
is left over from an earlier user of its descriptor. -/
structure Fresh (s : TcpServer) (conn : Nat) (fd : Int) : Prop where
  descriptor : fd ≠ -1
  unheld : ∀ (id : Int) (peer : Peer), s.peersById[id]? = some peer →
    peer.connection ≠ some conn
  unbuffered : s.connectionBuffers[fd]? = none

/-- The peers are filed under their ids. -/
def Keyed (s : TcpServer) : Prop :=
  ∀ (id : Int) (peer : Peer), s.peersById[id]? = some peer → peer.id = id

/-- The connection is registered as that of peer `k` and of no other. -/
def RegisteredAs (s : TcpServer) (conn : Nat) (k : Int) : Prop :=
  s.socketToPeerId[(s.connection conn).socketFd]? = some k
    ∧ ∀ id : Int, (∃ peer, s.peersById[id]? = some peer ∧ peer.state = .connected
      ∧ peer.connection = some conn) ↔ id = k

/-- What the first read may lead to. -/
inductive FirstRead (s : TcpServer) (conn : Nat) (fd : Int) (data : Bytes) (s' : TcpServer) :
    List VsrMessage → Prop where
  | registered (id : Int) (peer : Peer)
      (hword : handshakeWord <+: data) (hid : stoi (data.drop 13) = some id)
      (hpeer : s.peersById[id]? = some peer)
      (hpeers : s'.peersById
        = s.peersById.insert id { peer with state := .connected, connection := some conn })
      (hsockets : s'.socketToPeerId = s.socketToPeerId.insert fd peer.id)
      (hknown : (s'.connection conn).state ≠ .unidentified)
      (hsocket : (s'.connection conn).socketFd = fd)
      (hbuffer : s'.buffer conn = some []) :
      FirstRead s conn fd data s' []
  | unregistered (ms : List VsrMessage)
      (hnot : ∀ id ∈ stoi (data.drop 13), handshakeWord <+: data → s.peersById[id]? = none)
      (hpeers : s'.peersById = s.peersById)
      (hknown : (s'.connection conn).state ≠ .unidentified) :
      FirstRead s conn fd data s' ms

theorem onRead_first (hfresh : Fresh s conn fd) (data : Bytes) :
    FirstRead s conn fd data ((s.handleNewConnection conn fd).onRead H conn data).1
      ((s.handleNewConnection conn fd).onRead H conn data).2 := by
  have hstate : ((s.handleNewConnection conn fd).connection conn).state = .unidentified := by
    simp [handleNewConnection]
  -- The bytes go to the protocol handler, and the connection is a client's.
  have hclient : (∀ id ∈ stoi (data.drop 13), handshakeWord <+: data → s.peersById[id]? = none) →
      FirstRead s conn fd data
        (((s.handleNewConnection conn fd).setState conn .client).onMessage H conn data).1
        (((s.handleNewConnection conn fd).setState conn .client).onMessage H conn data).2 := by
    intro hnot
    obtain ⟨hpasses, -, -⟩ :=
      onMessage_spec (H := H) ((s.handleNewConnection conn fd).setState conn .client) conn data
    refine .unregistered _ hnot hpasses.peers ?_
    rw [hpasses.state]
    simp [setState]
  unfold onRead
  simp only [hstate]
  by_cases hword : handshakeWord.isPrefixOf data = true
  · rw [if_pos hword]
    cases hid : stoi (data.drop 13) with
    | none => exact hclient (by simp [hid])
    | some id =>
        simp only []
        unfold registerIdentifiedPeer
        split
        · rename_i hpeer
          refine .unregistered _ ?_ rfl ?_
          · intro id' hid' _
            obtain rfl : id = id' := by simpa [hid] using hid'
            exact hpeer
          · simp [closeSocket, setState]
        · rename_i peer hpeer
          refine .registered id peer (List.isPrefixOf_iff_prefix.mp hword) hid hpeer rfl
            ?_ ?_ ?_ ?_
          · simp [setState, handleNewConnection]
          · simp [setState]
          · simp [setState, handleNewConnection]
          · simp [buffer, setState, handleNewConnection, hfresh.descriptor, hfresh.unbuffered]
  · rw [if_neg hword]
    refine hclient ?_
    intro _ _ hprefix
    exact absurd (List.isPrefixOf_iff_prefix.mpr hprefix) hword

theorem not_registeredAs (hfresh : Fresh s conn fd) (hpeers : s'.peersById = s.peersById) :
    ¬RegisteredAs s' conn k := by
  intro h
  obtain ⟨peer, hpeer, -, hconn⟩ := (h.2 k).mpr rfl
  rw [hpeers] at hpeer
  exact hfresh.unheld k peer hpeer hconn

/-- Who has the connection after a registration. -/
theorem holder_iff (hfresh : Fresh s conn fd) {id : Int} {peer : Peer}
    (hpeers : s'.peersById
      = s.peersById.insert id { peer with state := .connected, connection := some conn })
    (id' : Int) :
    (∃ peer', s'.peersById[id']? = some peer' ∧ peer'.state = .connected
      ∧ peer'.connection = some conn) ↔ id' = id := by
  rw [hpeers, Std.ExtTreeMap.getElem?_insert]
  by_cases hid : id = id'
  · subst hid
    simp
  · rw [if_neg (by simpa using hid)]
    constructor
    · rintro ⟨peer', hpeer', -, hconn⟩
      exact absurd hconn (hfresh.unheld id' peer' hpeer')
    · intro heq
      exact absurd heq.symm hid

theorem socketFd_of_buffer {b : Bytes} (hpasses : Passes s s' conn)
    (h : s'.buffer conn = some b) :
    (s'.connection conn).socketFd = (s.connection conn).socketFd := by
  rcases hpasses.socket with heq | hclosed
  · exact heq
  · rw [buffer, if_pos hclosed] at h
    cases h

end TcpServer

/-! ## The handshake -/

theorem stoi_writeInt {k : Int} (hk : -2 ^ 31 ≤ k ∧ k < 2 ^ 31) :
    stoi (Decimal.writeInt k) = some k := by
  simp only [stoi, Decimal.readInt_writeInt, Option.filter_some, hk.1, hk.2, decide_true,
    Bool.and_self, if_true]

theorem stoi_ne_of_cut {p q : Bytes} {k : Int} (h : p ++ q = Decimal.writeInt k)
    (hq : q ≠ []) : stoi p ≠ some k := by
  intro hread
  exact Decimal.readInt_ne_of_cut h hq (Option.filter_eq_some_iff.mp hread).1

namespace TcpServer

/-- If the id is read right, either the handshake has been read alone, or
bytes of the first message have been read, and dropped, with it. -/
theorem first_read_of_stoi {k : Int} {data more stream : Bytes}
    (hflat : data ++ more = handshake k ++ stream) (hword : handshakeWord <+: data)
    (hid : stoi (data.drop 13) = some k) :
    data = handshake k ∨ more.length < stream.length := by
  obtain ⟨y, rfl⟩ := hword
  have hy : (handshakeWord ++ y).drop 13 = y := rfl
  rw [hy] at hid
  rw [handshake, List.append_assoc, List.append_assoc, List.append_cancel_left_eq] at hflat
  rcases List.append_eq_append_iff.mp hflat with ⟨z, hz, -⟩ | ⟨z, hz, hstream⟩
  · by_cases hnil : z = []
    · rw [hnil, List.append_nil] at hz
      rw [handshake, hz]
      exact Or.inl rfl
    · exact absurd hid (stoi_ne_of_cut hz.symm hnil)
  · by_cases hnil : z = []
    · rw [hnil, List.append_nil] at hz
      rw [handshake, hz]
      exact Or.inl rfl
    · right
      have hpos := List.length_pos_iff.mpr hnil
      rw [hstream, List.length_append]
      omega

theorem onReads_cons (s : TcpServer) (conn : Nat) (data : Bytes) (reads : List Bytes) :
    s.onReads H conn (data :: reads)
      = (((s.onRead H conn data).1.onReads H conn reads).1,
          (s.onRead H conn data).2 ++ ((s.onRead H conn data).1.onReads H conn reads).2) := rfl

/-- The server registers the peer that has connected, and gets all its
messages, if and only if the first read returns the handshake and nothing
else. -/
theorem identified_iff_handshake_read_alone (H : Bytes → UInt128) {s : TcpServer} {conn : Nat}
    {fd k : Int} {ms : List VsrMessage} {reads : List Bytes}
    (hfresh : s.Fresh conn fd) (hkeyed : s.Keyed) (hpeer : k ∈ s.peersById)
    (hk : -2 ^ 31 ≤ k ∧ k < 2 ^ 31)
    (hms : ∀ m ∈ ms, m.header.InRange ∧ (m.serialize H).length ≤ 65536)
    (hreads : reads.flatten = handshake k ++ (ms.map (VsrMessage.serialize H)).flatten) :
    (((s.handleNewConnection conn fd).onReads H conn reads).1.RegisteredAs conn k
        ∧ ((s.handleNewConnection conn fd).onReads H conn reads).2
          = ms.map (VsrMessage.stamped H))
      ↔ reads.head? = some (handshake k) := by
  cases reads with
  | nil => exact absurd hreads (by simp [handshake, handshakeWord])
  | cons data reads =>
      rw [List.flatten_cons] at hreads
      rw [onReads_cons, List.head?_cons, Option.some.injEq]
      have hfirst := onRead_first (H := H) hfresh data
      generalize (s.handleNewConnection conn fd).onRead H conn data = first at hfirst ⊢
      obtain ⟨s₁, ms₁⟩ := first
      cases hfirst with
      | unregistered _ hnot hpeers hknown =>
          obtain ⟨hpasses, -, -⟩ := onReads_of_known (H := H) hknown reads
          constructor
          · rintro ⟨hregistered, -⟩
            exact absurd hregistered (not_registeredAs hfresh (hpasses.peers.trans hpeers))
          · rintro rfl
            have hid : k ∈ stoi ((handshake k).drop 13) := stoi_writeInt hk
            have hnone := hnot k hid (List.prefix_append ..)
            rw [Std.ExtTreeMap.mem_iff_isSome_getElem?, hnone] at hpeer
            cases hpeer
      | registered id peer hword hid hfound hpeers hsockets hknown hsocket hbuffer =>
          obtain ⟨hpasses, hdelivered, hbuffer'⟩ := onReads_of_known (H := H) hknown reads
          have hholder := holder_iff hfresh (hpasses.peers.trans hpeers)
          rw [hbuffer] at hdelivered hbuffer'
          constructor
          · rintro ⟨hregistered, hmessages⟩
            obtain rfl : k = id := (hholder k).mp ((hregistered.2 k).mpr rfl)
            refine (first_read_of_stoi hreads hword hid).resolve_right ?_
            -- What is delivered is no longer than what was read after the first read.
            have hlen := length_delivered_le (H := H) reads
            have hmap : (handleReads H (some []) reads).1 = ms.map (VsrMessage.stamped H) :=
              hdelivered.symm.trans hmessages
            rw [hmap, VsrMessage.map_serialize_stamped] at hlen
            exact Nat.not_lt.mpr hlen
          · rintro rfl
            obtain rfl : k = id := Option.some.inj ((stoi_writeInt hk).symm.trans hid)
            rw [List.append_cancel_left_eq] at hreads
            have hrun : handleReads H (some []) reads
                = (ms.map (VsrMessage.stamped H), some []) := by
              rw [handleReads_eq_run, hreads, run_serialized hms]
            rw [hrun] at hdelivered hbuffer'
            refine ⟨⟨?_, hholder⟩, hdelivered⟩
            show ((s₁.onReads H conn reads).1.socketToPeerId)[_]? = some k
            rw [hpasses.sockets, hsockets, socketFd_of_buffer hpasses hbuffer', hsocket,
              hkeyed k peer hfound]
            simp

/-- The server of replica 0, which expects peers 1 and 2. -/
def listening : TcpServer where
  connection _ := { socketFd := -1 }
  peersById := (∅ : StdMap Int Peer).insert 1 { id := 1 } |>.insert 2 { id := 2 }

theorem listening_peers {id : Int} {peer : Peer} (h : listening.peersById[id]? = some peer) :
    peer = { id } ∧ (id = 1 ∨ id = 2) := by
  rw [listening, Std.ExtTreeMap.getElem?_insert, Std.ExtTreeMap.getElem?_insert] at h
  split at h
  · rename_i heq
    obtain rfl : 2 = id := by simpa using heq
    exact ⟨(Option.some.inj h).symm, Or.inr rfl⟩
  · split at h
    · rename_i heq
      obtain rfl : 1 = id := by simpa using heq
      exact ⟨(Option.some.inj h).symm, Or.inl rfl⟩
    · simp at h

theorem identified_handshake_read_alone :
    let H : Bytes → UInt128 := fun bs => ⟨0, bs.foldl (fun n b => n + b.toUInt64) 0⟩
    let commit : VsrMessage := { header := { command := .commit, view := 1, commit := 7 } }
    let reads := [handshake 1, (commit.serialize H).take 100, (commit.serialize H).drop 100]
    let served := (listening.handleNewConnection 0 5).onReads H 0 reads
    served.1.RegisteredAs 0 1 ∧ served.2 = [commit.stamped H] := by
  intro H commit reads served
  have hcommit : commit.header.InRange := by
    constructor <;> decide
  have hfresh : listening.Fresh 0 5 := by
    refine ⟨by decide, ?_, rfl⟩
    intro id peer hpeer
    simp [(listening_peers hpeer).1]
  have hkeyed : listening.Keyed := by
    intro id peer hpeer
    rw [(listening_peers hpeer).1]
  have hms : ∀ m ∈ [commit], m.header.InRange ∧ (m.serialize H).length ≤ 65536 := by
    simp [hcommit, VsrMessage.length_serialize, headerSize, commit]
  have hreads : reads.flatten
      = handshake 1 ++ ([commit].map (VsrMessage.serialize H)).flatten := by
    simp [reads]
  exact (identified_iff_handshake_read_alone H hfresh hkeyed (by decide) (by decide) hms
    hreads).mpr rfl

/-- A handshake and a message in one read: the message is lost. A handshake in
two reads: the peer is taken for a client. -/
theorem handshake_not_alone :
    let H : Bytes → UInt128 := fun bs => ⟨0, bs.foldl (fun n b => n + b.toUInt64) 0⟩
    let commit : VsrMessage := { header := { command := .commit, view := 1, commit := 7 } }
    let together := [handshake 1 ++ commit.serialize H]
    let apart := [handshakeWord, Decimal.writeInt 1, commit.serialize H]
    let server := listening.handleNewConnection 0 5
    (∀ data ∈ together ++ apart, 1 ≤ data.length ∧ data.length ≤ 1024)
      ∧ (server.onReads H 0 together).2 = []
      ∧ (server.onReads H 0 apart).1.peersById[(1 : Int)]? = some { id := 1 }
      ∧ (server.onReads H 0 apart).2 = [] := by
  decide +kernel

end TcpServer

end VsrKv
