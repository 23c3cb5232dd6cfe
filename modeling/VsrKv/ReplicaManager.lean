import Mathlib.Data.Finset.Basic
import VsrKv.TcpServer

/-!
# Who is reached over which socket

`ReplicaManager` keeps, for each peer, whether it is connected and over
which connection, and in `socket_to_peer_id_` the way back from a
descriptor to the peer. The two are written at different places, by the
callbacks of the connects, the reads and the writes and by `add_peer` and
`remove_peer`, and the operating system hands a descriptor out again once
it is closed.

None of them looks at both. A peer that is connected can be registered
over another connection, or marked as disconnected because a second
connect has failed; its connection can be registered for another peer, or
closed because of what was read from it; it can be removed. As long as
nothing of the kind happens, the tables agree in every state, and when it
happens, they no longer do (`bookkeeping_exact`).

The loop's requests are part of the state, with what their callbacks
refer to. The ring is taken to have room for every request.
-/

namespace VsrKv

/-! ## The loop -/

/-- What the loop has been asked for and has not answered. The callbacks of
a connect and of a reconnect timer keep a reference to the peer, which is to
nothing once the peer is removed. -/
inductive IoRequest where
  | connect (sock : Int) (peer : Option Int)
  | timeout (peer : Option Int)
  | read (conn : Nat)
  | write (conn : Nat)
deriving Repr, DecidableEq

namespace IoRequest

/-- The socket that belongs to the callback, and to no connection yet. -/
def sock? : IoRequest → Option Int
  | .connect sock _ => some sock
  | _ => none

/-- The connection the callback holds. -/
def conn? : IoRequest → Option Nat
  | .read conn => some conn
  | .write conn => some conn
  | _ => none

/-- The request once peer `peerId` has been erased. -/
def dangle (peerId : Int) : IoRequest → IoRequest
  | .connect sock peer => .connect sock (peer.filter (· != peerId))
  | .timeout peer => .timeout (peer.filter (· != peerId))
  | r => r

@[simp] theorem sock?_dangle (peerId : Int) (r : IoRequest) :
    (r.dangle peerId).sock? = r.sock? := by
  cases r <;> rfl

@[simp] theorem conn?_dangle (peerId : Int) (r : IoRequest) :
    (r.dangle peerId).conn? = r.conn? := by
  cases r <;> rfl

end IoRequest

/-! ## The manager -/

/-- The replica manager and the server it belongs to, with the requests of
the loop and the connection objects that somebody still holds. -/
structure ReplicaManager extends TcpServer where
  selfId : Int
  connections : StdMap Int Nat := ∅
  requests : List IoRequest := []
  objects : Finset Nat := ∅

namespace ReplicaManager

/-- The sockets with a connect under way. -/
def socks (s : ReplicaManager) : List Int := s.requests.filterMap IoRequest.sock?

/-- The connections that callbacks hold. -/
def conns (s : ReplicaManager) : List Nat := s.requests.filterMap IoRequest.conn?

def submit (s : ReplicaManager) (r : IoRequest) : ReplicaManager :=
  { s with requests := r :: s.requests }

/-- The loop takes the request out before it calls back. -/
def complete (s : ReplicaManager) (r : IoRequest) : ReplicaManager :=
  { s with requests := s.requests.erase r }

@[simp] theorem socks_submit (s : ReplicaManager) (r : IoRequest) :
    (s.submit r).socks = r.sock?.toList ++ s.socks := by
  cases h : r.sock? <;> simp [socks, submit, h]

@[simp] theorem conns_submit (s : ReplicaManager) (r : IoRequest) :
    (s.submit r).conns = r.conn?.toList ++ s.conns := by
  cases h : r.conn? <;> simp [conns, submit, h]

theorem socks_complete_sublist (s : ReplicaManager) (r : IoRequest) :
    (s.complete r).socks.Sublist s.socks :=
  List.erase_sublist.filterMap _

theorem conns_complete_sublist (s : ReplicaManager) (r : IoRequest) :
    (s.complete r).conns.Sublist s.conns :=
  List.erase_sublist.filterMap _

def setPeer (s : ReplicaManager) (peerId : Int) (peer : Peer) : ReplicaManager :=
  { s with peersById := s.peersById.insert peerId peer }

/-- The constructor. -/
def create (selfId : Int) (peers : List Peer) : ReplicaManager where
  connection _ := { socketFd := -1 }
  peersById := peers.foldl (fun peersById peer => peersById.insertIfNew peer.id peer) ∅
  selfId

def scheduleReconnect (s : ReplicaManager) (peerId : Int) : ReplicaManager :=
  s.submit (.timeout (some peerId))

/-- `sock` is what `socket` returns, `none` if it fails. -/
def attemptConnection (s : ReplicaManager) (peerId : Int) (peer : Peer) (sock : Option Int) :
    ReplicaManager :=
  if peer.state ≠ .disconnected then s
  else
    match sock with
    | none => (s.setPeer peerId { peer with state := .disconnected }).scheduleReconnect peerId
    | some sock =>
        (s.setPeer peerId { peer with state := .connecting }).submit
          (.connect sock (some peerId))

/-- One turn of `connect_to_peers`. -/
def connectToPeer (sock : Int → Option Int) (s : ReplicaManager) (peerId : Int) :
    ReplicaManager :=
  match s.peersById[peerId]? with
  | none => s
  | some peer =>
      if peer.id < s.selfId then s.attemptConnection peerId peer (sock peerId) else s

/-- `connect_to_peers`, which walks over the peers in the order of their ids. -/
def connectToPeers (s : ReplicaManager) (sock : Int → Option Int) : ReplicaManager :=
  s.peersById.keys.foldl (connectToPeer sock) s

/-- `register_new_connection` and `handle_new_connection`, with the connection
object made at `conn` and its first read. -/
def registerNewConnection (s : ReplicaManager) (conn : Nat) (sock : Int) : ReplicaManager :=
  { s with
    toTcpServer := s.toTcpServer.handleNewConnection conn sock
    connections := s.connections.insert sock conn
    objects := insert conn s.objects }.submit (.read conn)

/-- The connect callback when the connect has succeeded. The last request is
`send_handshake`. -/
def onConnected (s : ReplicaManager) (peerId : Int) (peer : Peer) (sock : Int) (conn : Nat) :
    ReplicaManager :=
  let s := s.setPeer peerId { peer with state := .connected, connection := some conn }
  let s := { s with socketToPeerId := s.socketToPeerId.insert sock peer.id }
  (s.registerNewConnection conn sock).submit (.write conn)

/-- The connect callback when the connect has failed. -/
def onConnectFailed (s : ReplicaManager) (peerId : Int) (peer : Peer) : ReplicaManager :=
  (s.setPeer peerId { peer with state := .disconnected }).scheduleReconnect peerId

/-- What `on_disconnect` writes for a peer that it finds. -/
def unregister (s : ReplicaManager) (peerId : Int) (peer : Peer) (socketFd : Int) :
    ReplicaManager :=
  { s.setPeer peerId { peer with state := .disconnected, connection := none } with
    socketToPeerId := s.socketToPeerId.erase socketFd }

/-- `none` is where `peers_by_id_.at` throws. -/
def onDisconnect (s : ReplicaManager) (conn : Nat) : Option ReplicaManager :=
  let socketFd := (s.connection conn).socketFd
  match s.socketToPeerId[socketFd]? with
  | none => some s
  | some peerId =>
      match s.peersById[peerId]? with
      | none => none
      | some peer =>
          let s := s.unregister peerId peer socketFd
          some (if peer.id < s.selfId then s.scheduleReconnect peerId else s)

def removeConnection (s : ReplicaManager) (conn : Nat) : Option ReplicaManager :=
  (s.onDisconnect conn).map fun s =>
    { s with connections := s.connections.erase (s.connection conn).socketFd }

/-- `ProtocolHandler::on_disconnect`. -/
def forgetBuffer (s : ReplicaManager) (conn : Nat) : ReplicaManager :=
  { s with connectionBuffers := s.connectionBuffers.erase (s.connection conn).socketFd }

def addPeer (s : ReplicaManager) (newPeer : Peer) (sock : Option Int) : ReplicaManager :=
  if newPeer.id ∈ s.peersById then s
  else
    let s := s.setPeer newPeer.id newPeer
    if newPeer.id < s.selfId then s.attemptConnection newPeer.id newPeer sock else s

def closeSocket (s : ReplicaManager) (conn : Nat) : ReplicaManager :=
  { s with toTcpServer := s.toTcpServer.closeSocket conn }

/-- `peers_by_id_.erase`, after which the references of the callbacks dangle. -/
def erasePeer (s : ReplicaManager) (peerId : Int) : ReplicaManager :=
  { s with
    peersById := s.peersById.erase peerId
    requests := s.requests.map (IoRequest.dangle peerId) }

@[simp] theorem socks_erasePeer (s : ReplicaManager) (k : Int) :
    (s.erasePeer k).socks = s.socks := by
  simp [socks, erasePeer, List.filterMap_map]

@[simp] theorem conns_erasePeer (s : ReplicaManager) (k : Int) :
    (s.erasePeer k).conns = s.conns := by
  simp [conns, erasePeer, List.filterMap_map]

def removePeer (s : ReplicaManager) (peerId : Int) : ReplicaManager :=
  match s.peersById[peerId]? with
  | none => s
  | some peer =>
      match peer.connection with
      | none => s.erasePeer peerId
      | some conn => (s.closeSocket conn).erasePeer peerId

/-- `is_peer_connection`. -/
def isPeerConnection (s : ReplicaManager) (conn : Nat) : Bool :=
  s.socketToPeerId.contains (s.connection conn).socketFd

end ReplicaManager

/-! ## Events -/

/-- What happens at a server. An event says what the operating system
chooses: the descriptors it opens (`none` if it fails to) and where the new
connection objects are made. -/
inductive ServerEvent where
  /-- `TcpServer::start`. -/
  | start (sock : Int → Option Int)
  | accepted (conn : Nat) (clientSocket : Int)
  | connected (sock : Int) (peer : Option Int) (conn : Nat)
  | connectFailed (sock : Int) (peer : Option Int)
  | reconnectTimer (peer : Option Int) (sock : Option Int)
  /-- A read returns bytes. -/
  | received (conn : Nat) (data : Bytes)
  /-- A read returns an error, or the end of the stream. -/
  | readFailed (conn : Nat)
  | send (conn : Nat)
  | written (conn : Nat)
  | writeFailed (conn : Nat)
  | addPeer (newPeer : Peer) (sock : Option Int)
  | removePeer (peerId : Int)
  /-- The last reference to a connection goes, and its destructor runs. -/
  | released (conn : Nat)

namespace ReplicaManager

/-- A descriptor the operating system may open: nothing of the server has it. -/
def Unused (s : ReplicaManager) (fd : Int) : Prop :=
  0 ≤ fd ∧ (∀ conn ∈ s.objects, (s.connection conn).socketFd ≠ fd) ∧ fd ∉ s.socks

/-- The events that can occur. A callback runs for a request; a new object is
made where none is; a peer is added as its initialisers leave it; an object
goes when nobody holds it. -/
def Enabled (s : ReplicaManager) : ServerEvent → Prop
  | .start sock =>
      (s.peersById.keys.filterMap sock).Nodup
        ∧ ∀ fd ∈ s.peersById.keys.filterMap sock, s.Unused fd
  | .accepted conn clientSocket => conn ∉ s.objects ∧ s.Unused clientSocket
  | .connected sock peer conn => .connect sock peer ∈ s.requests ∧ conn ∉ s.objects
  | .connectFailed sock peer => .connect sock peer ∈ s.requests
  | .reconnectTimer peer sock => .timeout peer ∈ s.requests ∧ ∀ fd ∈ sock, s.Unused fd
  | .received conn _ => .read conn ∈ s.requests
  | .readFailed conn => .read conn ∈ s.requests
  | .send conn => conn ∈ s.objects
  | .written conn => .write conn ∈ s.requests
  | .writeFailed conn => .write conn ∈ s.requests
  | .addPeer newPeer sock =>
      newPeer.state = .disconnected ∧ newPeer.connection = none ∧ ∀ fd ∈ sock, s.Unused fd
  | .removePeer _ => True
  | .released conn =>
      conn ∈ s.objects ∧ (∀ entry ∈ s.connections.toList, entry.2 ≠ conn)
        ∧ (∀ entry ∈ s.peersById.toList, entry.2.connection ≠ some conn) ∧ conn ∉ s.conns

instance (s : ReplicaManager) (fd : Int) : Decidable (s.Unused fd) :=
  inferInstanceAs (Decidable (_ ∧ _ ∧ _))

instance (s : ReplicaManager) : ∀ e, Decidable (s.Enabled e)
  | .start _ | .accepted .. | .connected .. | .reconnectTimer .. | .addPeer .. | .released _ =>
      inferInstanceAs (Decidable (_ ∧ _))
  | .connectFailed .. | .received .. | .readFailed _ | .send _ | .written _ | .writeFailed _ =>
      inferInstanceAs (Decidable (_ ∈ _))
  | .removePeer _ => .isTrue trivial

/-- The peer a callback refers to. -/
def peer? (s : ReplicaManager) (peer : Option Int) : Option (Int × Peer) :=
  peer.bind fun peerId => (s.peersById[peerId]?).map fun p => (peerId, p)

section

variable (H : Bytes → UInt128)

/-- The read callback with bytes. The messages in them go to the replica, which
writes neither table. -/
def onReceived (s : ReplicaManager) (conn : Nat) (data : Bytes) : ReplicaManager :=
  { s with toTcpServer := (s.toTcpServer.onRead H conn data).1 }.submit (.read conn)

/-- What the server does. `none` is where an exception leaves the loop, or a
callback uses a peer that is no more. -/
def handle (s : ReplicaManager) : ServerEvent → Option ReplicaManager
  | .start sock => some (s.connectToPeers sock)
  | .accepted conn clientSocket => some (s.registerNewConnection conn clientSocket)
  | .connected sock peer conn =>
      match s.peer? peer with
      | none => none
      | some (peerId, p) =>
          some ((s.complete (.connect sock peer)).onConnected peerId p sock conn)
  | .connectFailed sock peer =>
      match s.peer? peer with
      | none => none
      | some (peerId, p) => some ((s.complete (.connect sock peer)).onConnectFailed peerId p)
  | .reconnectTimer peer sock =>
      match s.peer? peer with
      | none => none
      | some (peerId, p) => some ((s.complete (.timeout peer)).attemptConnection peerId p sock)
  | .received conn data => some ((s.complete (.read conn)).onReceived H conn data)
  | .readFailed conn => ((s.complete (.read conn)).forgetBuffer conn).removeConnection conn
  | .send conn => some (s.submit (.write conn))
  | .written conn => some (s.complete (.write conn))
  | .writeFailed conn => (s.complete (.write conn)).removeConnection conn
  | .addPeer newPeer sock => some (s.addPeer newPeer sock)
  | .removePeer peerId => some (s.removePeer peerId)
  | .released conn => some { s.closeSocket conn with objects := s.objects.erase conn }

/-! ## When the tables agree -/

/-- A descriptor is mapped to a peer just if the peer is connected over a
connection with that descriptor. -/
def Exact (s : ReplicaManager) : Prop :=
  ∀ fd p : Int, s.socketToPeerId[fd]? = some p
    ↔ ∃ peer conn, s.peersById[p]? = some peer ∧ peer.state = .connected
      ∧ peer.connection = some conn ∧ (s.connection conn).socketFd = fd

/-- The connection `send_to_peer` writes to. -/
def connectionOf (s : ReplicaManager) (p : Int) : Option Nat :=
  (s.peersById[p]?).bind fun peer => if peer.state = .connected then peer.connection else none

/-- The id in a read that `start_reading` takes for a handshake. -/
def handshakeId (s : ReplicaManager) (conn : Nat) (data : Bytes) : Option Int :=
  if (s.connection conn).state = .unidentified ∧ handshakeWord.isPrefixOf data = true then
    stoi (data.drop 13)
  else none

/-- The reads that do not, of a handshake with this id or of something else. -/
def OrderlyRead (s : ReplicaManager) (conn : Nat) (data : Bytes) : Option Int → Prop
  | some id =>
      -- It is for nobody else's connection, and the peer is not connected over another.
      if id ∈ s.peersById then
        s.connectionOf id = some conn
          ∨ s.connectionOf id = none ∧ s.isPeerConnection conn = false
      else s.isPeerConnection conn = false
  | none =>
      -- No protocol error comes from a peer.
      s.isPeerConnection conn = true →
        (handleRawData H (s.toTcpServer.buffer conn) data).2.isSome

/-- The events that do not write one table against the other. -/
def Orderly (s : ReplicaManager) : ServerEvent → Prop
  -- The peer is there, and not connected by now.
  | .connected _ peer _ | .connectFailed _ peer =>
      ∃ p ∈ s.peer? peer, p.2.state ≠ .connected
  | .reconnectTimer peer _ => (s.peer? peer).isSome
  | .received conn data => s.OrderlyRead H conn data (s.handshakeId conn data)
  | .removePeer peerId => s.connectionOf peerId = none
  | _ => True

instance (s : ReplicaManager) (conn : Nat) (data : Bytes) :
    ∀ id, Decidable (s.OrderlyRead H conn data id)
  | some id => inferInstanceAs (Decidable (if id ∈ s.peersById then _ else _))
  | none => inferInstanceAs (Decidable (_ → _))

instance (s : ReplicaManager) : ∀ e, Decidable (s.Orderly H e)
  | .connected _ peer _ | .connectFailed _ peer =>
      inferInstanceAs (Decidable (∃ p ∈ s.peer? peer, p.2.state ≠ .connected))
  | .reconnectTimer peer _ => inferInstanceAs (Decidable ((s.peer? peer).isSome = true))
  | .received conn data =>
      inferInstanceAs (Decidable (s.OrderlyRead H conn data (s.handshakeId conn data)))
  | .removePeer peerId => inferInstanceAs (Decidable (s.connectionOf peerId = none))
  | .start _ | .accepted .. | .readFailed _ | .send _ | .written _ | .writeFailed _ | .addPeer ..
  | .released _ => .isTrue trivial

end

end ReplicaManager

end VsrKv
