import VsrKv.TransitionSystem
import VsrKv.Types

/-!
# The client's connection

`TcpClient`, one of which `client_main` keeps for each replica. It
connects, reads, and once the connection is lost waits and connects
again; what it does, it does in the callbacks of the event loop, whose
posted work runs in the order posted and whose requests complete in any
order. `send` may be called by another thread at any time, and is two
steps, the check and the post.

`Moves` says once what an event can do, and the results on connecting,
on the callbacks, on what is written and on what is read go by its
cases.
-/

namespace VsrKv

open TransitionSystem

/-- `TcpClient::State`. -/
inductive TcpClientState where
  | disconnected
  | connecting
  | connected
deriving DecidableEq

/-- What `connect`, `send` and `schedule_reconnect` post. -/
inductive PostedWork where
  | connect
  | write (data : Bytes)
  | reconnect
deriving DecidableEq

/-- A request in the ring. A connection is known by its number, from 0. -/
inductive ClientIo where
  | connect
  | read (conn : Nat)
  | write (conn : Nat) (data : Bytes)
  | timeout
deriving DecidableEq

/-- The data of a send that is posted. -/
def PostedWork.write? : PostedWork → Option Bytes
  | .write data => some data
  | _ => none

def ClientIo.write? : ClientIo → Option (Nat × Bytes)
  | .write conn data => some (conn, data)
  | _ => none

inductive ClientCallback where
  | onConnect (conn : Nat)
  | onConnectFailed
  | onMessage (data : Bytes)
  | onDisconnect (conn : Option Nat)
deriving DecidableEq

def ClientIo.isRead : ClientIo → Bool
  | .read _ => true
  | _ => false

def ClientCallback.message? : ClientCallback → Option Bytes
  | .onMessage data => some data
  | _ => none

/-- The client, its work and its requests. `connections` counts the connections made, and
`buffer` has their buffers; `sending` is a `send` that has not posted yet. `accepted`,
`submitted`, `dropped`, `received` and `callbacks` are records. -/
structure TcpClient where
  state : TcpClientState := .disconnected
  connection : Option Nat := none
  connections : Nat := 0
  buffer : Nat → Bytes := fun _ => List.replicate 1024 0
  sending : Option Bytes := none
  posted : List PostedWork := []
  requests : List ClientIo := []
  crashed : Bool := false
  accepted : List Bytes := []
  submitted : List ClientIo := []
  dropped : List ClientIo := []
  received : List Bytes := []
  callbacks : List ClientCallback := []

/-- `work` runs the first of what is posted and `complete` the callback of a request;
`room` says whether the ring has room for what they submit. The result of a read is the
data, none of it at the end of the stream, and `none` is any result below 0. -/
inductive TcpClientEvent where
  | send (data : Bytes)
  | post
  | work (socket room : Bool)
  | complete (request : ClientIo) (result : Option Bytes) (room : Bool)
deriving DecidableEq

namespace TcpClient

/-- `submit_*`, which does nothing if there is no room. -/
def submit (c : TcpClient) (room : Bool) (request : ClientIo) : TcpClient :=
  if room then
    { c with requests := c.requests ++ [request], submitted := c.submitted ++ [request] }
  else { c with dropped := c.dropped ++ [request] }

def post (c : TcpClient) (work : PostedWork) : TcpClient := { c with posted := c.posted ++ [work] }

def callback (c : TcpClient) (call : ClientCallback) : TcpClient :=
  { c with callbacks := c.callbacks ++ [call] }

def connect (c : TcpClient) : TcpClient :=
  if c.state ≠ .disconnected then c else { c with state := .connecting }.post .connect

def scheduleReconnect (c : TcpClient) : TcpClient := c.post .reconnect

def connectFailed (c : TcpClient) : TcpClient :=
  { c.callback .onConnectFailed with state := .disconnected }.scheduleReconnect

def handleDisconnect (c : TcpClient) : TcpClient :=
  if c.state ≠ .connected then c
  else
    { { c with state := .disconnected }.callback (.onDisconnect c.connection) with
      connection := none }.scheduleReconnect

/-- Crashes where `connection_` is null. -/
def startReading (c : TcpClient) (room : Bool) : TcpClient :=
  match c.connection with
  | none => { c with crashed := true }
  | some conn => c.submit room (.read conn)

def runWork (c : TcpClient) (socket room : Bool) : PostedWork → TcpClient
  | .connect => if socket then c.submit room .connect else c.connectFailed
  | .write data =>
      match c.connection with
      | none => c
      | some conn => c.submit room (.write conn data)
  | .reconnect => c.submit room .timeout

/-- The data the kernel puts in the buffer of a connection. -/
def fill (c : TcpClient) (conn : Nat) (data : Bytes) : TcpClient :=
  { c with
    buffer := fun k => if k = conn then data ++ (c.buffer k).drop data.length else c.buffer k
    received := c.received ++ [data] }

/-- `make_shared<TcpConnection>` and what goes with it. -/
def newConnection (c : TcpClient) : TcpClient :=
  { c with
    connection := some c.connections
    connections := c.connections + 1
    state := .connected }.callback (.onConnect c.connections)

/-- The callbacks of the requests. That of a read looks at the connection there is now. -/
def runCallback (c : TcpClient) (room : Bool) : ClientIo → Option Bytes → TcpClient
  | .connect, some _ => c.newConnection.startReading room
  | .connect, none => c.connectFailed
  | .read _, none => c.handleDisconnect
  | .read conn, some data =>
      if data = [] then c.handleDisconnect
      else
        match c.connection with
        | none => { c.fill conn data with crashed := true }
        | some current =>
            let c := c.fill conn data
            (c.callback (.onMessage ((c.buffer current).take data.length))).startReading room
  | .write _ _, some _ => c
  | .write _ _, none => c.handleDisconnect
  | .timeout, _ => c.connect

def step (c : TcpClient) (ev : TcpClientEvent) : Option TcpClient :=
  if c.crashed then none
  else
    match ev with
    | .send data =>
        if c.sending ≠ none then none
        else if c.state = .connected ∧ c.connection ≠ none then
          some { c with sending := some data }
        else some c
    | .post =>
        match c.sending with
        | none => none
        | some data =>
            some ({ c with sending := none, accepted := c.accepted ++ [data] }.post (.write data))
    | .work socket room =>
        match c.posted with
        | [] => none
        | work :: rest => some ({ c with posted := rest }.runWork socket room work)
    | .complete request result room =>
        if request ∈ c.requests ∧ (result.getD []).length ≤ 1024 then
          some ({ c with requests := c.requests.erase request }.runCallback room request result)
        else none

/-- The client as `client_main` starts it. -/
def started : TcpClient := ({} : TcpClient).connect

/-- What a step does. -/
inductive Moves (c : TcpClient) : TcpClientEvent → TcpClient → Prop where
  | unsent (data : Bytes) : Moves c (.send data) c
  | sending (data : Bytes) (hstate : c.state = .connected) :
      Moves c (.send data) { c with sending := some data }
  | post (data : Bytes) (hsending : c.sending = some data) :
      Moves c .post
        ({ c with sending := none, accepted := c.accepted ++ [data] }.post (.write data))
  | work (socket room : Bool) (work : PostedWork) (rest : List PostedWork)
      (hposted : c.posted = work :: rest) :
      Moves c (.work socket room) ({ c with posted := rest }.runWork socket room work)
  | complete (request : ClientIo) (result : Option Bytes) (room : Bool)
      (hmem : request ∈ c.requests) (hfits : (result.getD []).length ≤ 1024) :
      Moves c (.complete request result room)
        ({ c with requests := c.requests.erase request }.runCallback room request result)

theorem moves_of_step {c c' : TcpClient} {ev : TcpClientEvent} (hstep : c.step ev = some c') :
    c.crashed = false ∧ Moves c ev c' := by
  rw [step.eq_def] at hstep
  split at hstep
  · cases hstep
  · rename_i hcrashed
    refine ⟨Bool.eq_false_of_not_eq_true hcrashed, ?_⟩
    cases ev with
    | send data =>
        simp only [Option.ite_none_left_eq_some] at hstep
        obtain ⟨-, hstep⟩ := hstep
        split at hstep
        · rename_i hconnected
          obtain rfl := Option.some.inj hstep
          exact .sending data hconnected.1
        · obtain rfl := Option.some.inj hstep
          exact .unsent data
    | post =>
        cases hsending : c.sending with
        | none => simp only [hsending, reduceCtorEq] at hstep
        | some data =>
            simp only [hsending, Option.some.injEq] at hstep
            exact hstep ▸ .post data hsending
    | work socket room =>
        cases hposted : c.posted with
        | nil => simp only [hposted, reduceCtorEq] at hstep
        | cons work rest =>
            simp only [hposted, Option.some.injEq] at hstep
            exact hstep ▸ .work socket room work rest hposted
    | complete request result room =>
        simp only [Option.ite_none_right_eq_some] at hstep
        obtain ⟨⟨hmem, hfits⟩, hstep⟩ := hstep
        obtain rfl := Option.some.inj hstep
        exact .complete request result room hmem hfits

/-- The client is the loop's: whatever completes, and whether the ring has room. -/
abbrev AnyEvent (_ : TcpClient) (_ : TcpClientEvent) (_ : TcpClient) : Prop := True

end TcpClient

end VsrKv
