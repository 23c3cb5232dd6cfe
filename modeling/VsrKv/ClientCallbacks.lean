import VsrKv.KeepsConnecting

/-!
# What the client's callbacks tell

The callbacks of a client tell of one connection after the other, with
each closed before the next, and of messages only between the two
(`callbacks_alternate`): a listener that keeps count, `listen`, accepts
them all and knows at any time whether the client has a connection, and
which.
-/

namespace VsrKv

open TransitionSystem

namespace TcpClient

/-- What a listener makes of a callback, with the connection it knows of and the number
that have been made; `none` is what it does not expect. -/
def listen : Option Nat × Nat → ClientCallback → Option (Option Nat × Nat)
  | (none, n), .onConnect conn => if conn = n then some (some conn, n + 1) else none
  | (none, n), .onConnectFailed => some (none, n)
  | (some conn, n), .onMessage _ => some (some conn, n)
  | (some conn, n), .onDisconnect lost => if lost = some conn then some (none, n) else none
  | _, _ => none

/-- A listener is not surprised, and knows the connection. -/
def Told (c : TcpClient) : Prop :=
  c.callbacks.foldlM listen (none, 0) = some (c.connection, c.connections)

section

variable {c c' : TcpClient} {room : Bool} {request : ClientIo}

/-- Nothing is said, and nothing is new. -/
theorem Told.congr (h : Told c) (hconnection : c'.connection = c.connection)
    (hconnections : c'.connections = c.connections) (hcallbacks : c'.callbacks = c.callbacks) :
    Told c' := by
  rw [Told, hcallbacks, hconnection, hconnections]
  exact h

/-- What is said is what is new. -/
theorem Told.snoc {call : ClientCallback} (h : Told c)
    (hcallbacks : c'.callbacks = c.callbacks ++ [call])
    (hlisten : listen (c.connection, c.connections) call = some (c'.connection, c'.connections)) :
    Told c' := by
  rw [Told, hcallbacks, List.foldlM_append, h, Option.bind_eq_bind, Option.bind_some,
    List.foldlM_cons, hlisten, Option.bind_eq_bind, Option.bind_some, List.foldlM_nil]
  rfl

theorem Told.submit (h : Told c) (room : Bool) (request : ClientIo) :
    Told (c.submit room request) := by
  cases room <;> exact h.congr rfl rfl rfl

theorem Told.startReading (h : Told c) (room : Bool) : Told (c.startReading room) := by
  rw [TcpClient.startReading]
  split
  · exact h.congr rfl rfl rfl
  · exact h.submit room _

theorem Told.connectFailed (h : Told c) (hnone : c.connection = none) :
    Told c.connectFailed := by
  refine h.snoc rfl ?_
  change listen (c.connection, _) .onConnectFailed = some (c.connection, _)
  rw [hnone]
  rfl

theorem Told.handleDisconnect (h : Told c)
    (hconnected : c.state = .connected → c.connection ≠ none) : Told c.handleDisconnect := by
  rw [TcpClient.handleDisconnect]
  split
  · exact h
  · rename_i hstate
    rw [not_not] at hstate
    obtain ⟨conn, hconn⟩ := Option.ne_none_iff_exists'.mp (hconnected hstate)
    exact h.snoc rfl (by rw [hconn]; exact if_pos rfl)

theorem Told.runWork (h : Told c) {work : PostedWork} {rest : List PostedWork} (hdriven : Driven c)
    (hposted : c.posted = work :: rest) (socket : Bool) :
    Told ({ c with posted := rest }.runWork socket room work) := by
  have hrest : Told { c with posted := rest } := h.congr rfl rfl rfl
  cases work with
  | connect =>
      cases socket with
      | true => exact hrest.submit room _
      | false => exact hrest.connectFailed (hdriven.of_attempts (by simp [attempts, hposted])).2.1
  | write data =>
      rw [TcpClient.runWork]
      split
      · exact hrest
      · exact hrest.submit room _
  | reconnect => exact hrest.submit room _

theorem Told.runCallback (h : Told c) (hdriven : Driven c) (hmem : request ∈ c.requests)
    (result : Option Bytes) :
    Told ({ c with requests := c.requests.erase request }.runCallback room request result) := by
  have hrest : Told { c with requests := c.requests.erase request } := h.congr rfl rfl rfl
  have hlost := hrest.handleDisconnect hdriven.connected.mp
  cases request with
  | connect =>
      have hpos : 0 < c.requests.count .connect := List.count_pos_iff.mpr hmem
      have hnone : c.connection = none := (hdriven.of_attempts (by rw [attempts]; omega)).2.1
      cases result with
      | none => exact hrest.connectFailed hnone
      | some data =>
          rw [TcpClient.runCallback]
          refine Told.startReading (hrest.snoc rfl ?_) room
          change listen (c.connection, _) _ = _
          rw [hnone]
          exact if_pos rfl
  | read conn =>
      cases result with
      | none => exact hlost
      | some data =>
          rw [TcpClient.runCallback]
          split
          · exact hlost
          · split
            · exact hrest.congr rfl rfl rfl
            · rename_i current hcurrent
              refine Told.startReading (hrest.snoc rfl ?_) room
              change listen (c.connection, _) _ = some (c.connection, _)
              rw [show c.connection = some current from hcurrent]
              rfl
  | write conn data =>
      cases result with
      | none => exact hlost
      | some _ => exact hrest
  | timeout =>
      rw [TcpClient.runCallback, TcpClient.connect]
      split
      · exact hrest
      · exact hrest.congr rfl rfl rfl

theorem Told.step {ev : TcpClientEvent} (h : Told c) (hdriven : Driven c)
    (hstep : c.step ev = some c') : Told c' := by
  cases (moves_of_step hstep).2 with
  | unsent => exact h
  | sending => exact h.congr rfl rfl rfl
  | post => exact h.congr rfl rfl rfl
  | work socket room work rest hposted => exact h.runWork hdriven hposted socket
  | complete request result room hmem => exact h.runCallback hdriven hmem result

end

/-- The callbacks of the client tell of one connection after the other: each begins when
there is none, is the next in number, has all the messages to itself, and ends before
another; and between connections an attempt may fail. What a listener has made of them
is the connection the client has. -/
theorem callbacks_alternate {c : TcpClient} (run : Steps step AnyEvent started c) :
    c.callbacks.foldlM listen (none, 0) = some (c.connection, c.connections) :=
  run.invariant (I := Told) rfl fun _ _ _ run hstep _ h => h.step (driven_run run) hstep

/-- A connection that is made, read from and lost. -/
def oneConnection : List TcpClientEvent :=
  [.work true true, .complete .connect (some []) true, .complete (.read 0) (some [7]) true,
    .complete (.read 0) (some []) true]

theorem callbacks_alternate_once :
    ∃ c, Steps step AnyEvent started c
      ∧ c.callbacks = [.onConnect 0, .onMessage [7], .onDisconnect (some 0)]
      ∧ c.callbacks.foldlM listen (none, 0) = some (c.connection, c.connections) := by
  obtain ⟨c, run, hcallbacks⟩ := exists_of_replay step AnyEvent started oneConnection
    (P := fun c => c.callbacks = [.onConnect 0, .onMessage [7], .onDisconnect (some 0)])
    (by decide)
  exact ⟨c, run, hcallbacks, callbacks_alternate run⟩

end TcpClient

end VsrKv
