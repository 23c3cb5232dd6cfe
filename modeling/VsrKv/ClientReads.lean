import VsrKv.ClientCallbacks

/-!
# What the client reads

Where no write fails, what is read is passed on as it is
(`reads_passed_on`). The failure of a write is taken for the loss of the
connection there is when it is reported, and takes `connection_` away
under the read in flight; the callback of that read then follows a null
pointer (`null_read`).
-/

namespace VsrKv

open TransitionSystem

namespace TcpClient

/-- What `on_message_` has been given. -/
def messages (c : TcpClient) : List Bytes := c.callbacks.filterMap ClientCallback.message?

/-- No more than one read is in flight, on the connection there is, and each that has
completed was passed on. -/
structure Reading (c : TcpClient) : Prop where
  fine : c.crashed = false
  passed : c.messages = c.received
  current : ∀ conn, .read conn ∈ c.requests → c.connection = some conn
  one : c.requests.countP ClientIo.isRead ≤ 1

/-- No write fails. -/
def WritesSucceed (_ : TcpClient) (ev : TcpClientEvent) (_ : TcpClient) : Prop :=
  match ev with
  | .complete (.write _ _) none _ => False
  | _ => True

section

variable {c c' : TcpClient} {room : Bool} {request : ClientIo}

/-- Nothing is read, and no read submitted. -/
theorem Reading.congr (h : Reading c) (hcrashed : c'.crashed = c.crashed)
    (hmessages : c'.messages = c.messages) (hreceived : c'.received = c.received)
    (hconnection : c'.connection = c.connection)
    (hrequests : c'.requests.filter ClientIo.isRead = c.requests.filter ClientIo.isRead) :
    Reading c' where
  fine := hcrashed.trans h.fine
  passed := by rw [hmessages, hreceived]; exact h.passed
  current := by
    intro conn hmem
    rw [hconnection]
    refine h.current conn (List.mem_of_mem_filter (p := ClientIo.isRead) ?_)
    rw [← hrequests]
    exact List.mem_filter.mpr ⟨hmem, rfl⟩
  one := by
    rw [List.countP_eq_length_filter, hrequests, ← List.countP_eq_length_filter]
    exact h.one

theorem Reading.submit (h : Reading c) (hrequest : request.isRead = false) (room : Bool) :
    Reading (c.submit room request) := by
  cases room with
  | false => exact h.congr rfl rfl rfl rfl rfl
  | true => exact h.congr rfl rfl rfl rfl (by simp [TcpClient.submit, hrequest])

theorem not_mem_of_countP (h : c.requests.countP ClientIo.isRead = 0) (conn : Nat) :
    .read conn ∉ c.requests := by
  intro hmem
  exact List.countP_eq_zero.mp h _ hmem rfl

/-- The next read, with none in flight. -/
theorem Reading.startReading (h : Reading c) {conn : Nat} (hconn : c.connection = some conn)
    (hnone : c.requests.countP ClientIo.isRead = 0) : Reading (c.startReading room) := by
  rw [TcpClient.startReading, hconn]
  cases room with
  | false => exact h.congr rfl rfl rfl rfl rfl
  | true =>
      refine ⟨h.fine, h.passed, fun conn' hmem => ?_, ?_⟩
      · rcases List.mem_append.mp hmem with hmem | hmem
        · exact absurd hmem (not_mem_of_countP hnone conn')
        · obtain rfl := ClientIo.read.inj (List.mem_singleton.mp hmem)
          exact hconn
      · simp [TcpClient.submit, List.countP_append, hnone, ClientIo.isRead]

theorem Reading.connectFailed (h : Reading c) : Reading c.connectFailed := by
  refine h.congr rfl ?_ rfl rfl rfl
  simp [TcpClient.connectFailed, scheduleReconnect, TcpClient.post, callback, messages,
    ClientCallback.message?]

theorem Reading.handleDisconnect (h : Reading c)
    (hnone : c.requests.countP ClientIo.isRead = 0) : Reading c.handleDisconnect := by
  rw [TcpClient.handleDisconnect]
  split
  · exact h
  · refine ⟨h.fine, ?_, fun conn hmem => absurd hmem (not_mem_of_countP hnone conn), h.one⟩
    rw [← show c.messages = _ from h.passed]
    simp [scheduleReconnect, TcpClient.post, callback, messages, ClientCallback.message?]

theorem Reading.runWork {work : PostedWork} {rest : List PostedWork} (h : Reading c)
    (socket : Bool) : Reading ({ c with posted := rest }.runWork socket room work) := by
  have hrest : Reading { c with posted := rest } := h.congr rfl rfl rfl rfl rfl
  cases work with
  | connect =>
      cases socket with
      | true => exact hrest.submit rfl room
      | false => exact hrest.connectFailed
  | write data =>
      rw [TcpClient.runWork]
      split
      · exact hrest
      · exact hrest.submit rfl room
  | reconnect => exact hrest.submit rfl room

theorem Reading.runCallback (h : Reading c) (hdriven : Driven c) (hmem : request ∈ c.requests)
    (result : Option Bytes)
    (hwrites : ∀ conn data, ¬(request = .write conn data ∧ result = none)) :
    Reading ({ c with requests := c.requests.erase request }.runCallback room request result) := by
  have hcount := List.countP_erase ClientIo.isRead c.requests request
  have hrest : Reading { c with requests := c.requests.erase request } :=
    ⟨h.fine, h.passed, fun conn hread => h.current conn (List.mem_of_mem_erase hread),
      (by rw [hcount]; exact (Nat.sub_le _ _).trans h.one)⟩
  cases request with
  | connect =>
      cases result with
      | none => exact hrest.connectFailed
      | some data =>
          have hpos : 0 < c.requests.count .connect := List.count_pos_iff.mpr hmem
          have hnone : c.connection = none := (hdriven.of_attempts (by rw [attempts]; omega)).2.1
          -- without a connection no read can be in flight
          have hreads : c.requests.countP ClientIo.isRead = 0 := by
            refine List.countP_eq_zero.mpr fun r hr => ?_
            cases r with
            | read conn => exact absurd (h.current conn hr) (by simp [hnone])
            | _ => simp [ClientIo.isRead]
          have hopened :
              Reading { c with requests := c.requests.erase .connect }.newConnection := by
            refine ⟨h.fine, ?_, fun conn hread => ?_, hrest.one⟩
            · rw [← show c.messages = _ from h.passed]
              simp [newConnection, callback, messages, ClientCallback.message?]
            · exact absurd (List.mem_of_mem_erase hread) (not_mem_of_countP hreads conn)
          refine hopened.startReading rfl ?_
          exact Nat.le_zero.mp (hcount ▸ hreads ▸ Nat.sub_le _ _)
  | read conn =>
      have hconn : c.connection = some conn := h.current conn hmem
      have hreads : (c.requests.erase (.read conn)).countP ClientIo.isRead = 0 := by
        rw [hcount, if_pos ⟨hmem, rfl⟩]
        have := h.one
        omega
      cases result with
      | none => exact hrest.handleDisconnect hreads
      | some data =>
          rw [TcpClient.runCallback]
          split
          · exact hrest.handleDisconnect hreads
          · split
            · rename_i hnone
              exact absurd (hconn.symm.trans hnone) (by simp)
            · rename_i current hcurrent
              obtain rfl : conn = current := Option.some.inj (hconn.symm.trans hcurrent)
              refine Reading.startReading ⟨h.fine, ?_, hrest.current, hrest.one⟩ hconn hreads
              have hpassed : c.messages = c.received := h.passed
              rw [messages] at hpassed
              simp [fill, callback, messages, ClientCallback.message?, hpassed]
  | write conn data =>
      cases result with
      | none => exact absurd ⟨rfl, rfl⟩ (hwrites conn data)
      | some _ => exact hrest
  | timeout =>
      rw [TcpClient.runCallback, TcpClient.connect]
      split
      · exact hrest
      · exact hrest.congr rfl rfl rfl rfl rfl

theorem Reading.step {ev : TcpClientEvent} (h : Reading c) (hdriven : Driven c)
    (hstep : c.step ev = some c') (hwrites : WritesSucceed c ev c') : Reading c' := by
  cases (moves_of_step hstep).2 with
  | unsent => exact h
  | sending => exact h.congr rfl rfl rfl rfl rfl
  | post => exact h.congr rfl rfl rfl rfl rfl
  | work socket room work rest => exact h.runWork socket
  | complete request result room hmem =>
      refine h.runCallback hdriven hmem result ?_
      rintro conn data ⟨rfl, rfl⟩
      exact hwrites

end

/-- As long as no write fails, the client follows no null pointer, and gives `on_message_`
what was read, each read once and in order; it never has two reads in flight, nor one on a
connection that is gone. -/
theorem reads_passed_on {c : TcpClient} (run : Steps step WritesSucceed started c) :
    c.crashed = false ∧ c.messages = c.received
      ∧ (∀ conn, .read conn ∈ c.requests → c.connection = some conn)
      ∧ c.requests.countP ClientIo.isRead ≤ 1 := by
  have h : Reading c := run.invariant ⟨rfl, rfl, fun conn hmem => (by cases hmem), by decide⟩
    fun _ _ _ run hstep hwrites h =>
      h.step (driven_run (run.mono fun _ _ _ => trivial)) hstep hwrites
  exact ⟨h.fine, h.passed, h.current, h.one⟩

instance : ∀ c ev c', Decidable (WritesSucceed c ev c') := by
  intro c ev c'
  unfold WritesSucceed
  split <;> infer_instance

theorem reads_passed_on_once :
    ∃ c, Steps step WritesSucceed started c ∧ c.received = [[7]] ∧ c.messages = c.received := by
  obtain ⟨c, run, hreceived⟩ := exists_of_replay step WritesSucceed started oneConnection
    (P := fun c => c.received = [[7]]) (by decide)
  exact ⟨c, run, hreceived, (reads_passed_on run).2.1⟩

/-- A write fails while there is data to be read, and is reported first. -/
def writeFails : List TcpClientEvent :=
  [.work true true, .complete .connect (some []) true, .send [1], .post, .work true true,
    .complete (.write 0 [1]) none true, .complete (.read 0) (some [7]) true]

/-- What was read is then lost, and the client with it. -/
theorem null_read : ∃ c, Steps step AnyEvent started c ∧ c.crashed = true ∧ c.received = [[7]]
    ∧ c.messages = [] :=
  exists_of_replay step AnyEvent started writeFails
    (P := fun c => c.crashed = true ∧ c.received = [[7]] ∧ c.messages = []) (by decide)

end TcpClient

end VsrKv
