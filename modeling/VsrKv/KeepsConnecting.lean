import VsrKv.TcpClient

/-!
# The client keeps connecting

As long as the ring has room the client never stops trying: it is
connected, or there is one attempt under way, or one reconnect. A
request that the ring had no place for takes that attempt or reconnect
with it, so the count goes over what is posted, what is in flight and
what was dropped (`Driven`). A client that has not crashed can still
become connected exactly if it has dropped neither (`keeps_connecting`).
-/

namespace VsrKv

open TransitionSystem

namespace TcpClient

/-- Attempts to connect: posted, or under way. -/
def attempts (c : TcpClient) : Nat := c.posted.count .connect + c.requests.count .connect

/-- Reconnects to come: the wait is posted, or under way. -/
def retries (c : TcpClient) : Nat := c.posted.count .reconnect + c.requests.count .timeout

/-- Of being connected, an attempt and a reconnect to come there is always exactly one,
unless it was dropped, and the state says which. -/
structure Driven (c : TcpClient) : Prop where
  connected : c.state = .connected ↔ c.connection ≠ none
  connecting : c.attempts + c.dropped.count .connect = if c.state = .connecting then 1 else 0
  waiting : c.retries + c.dropped.count .timeout = if c.state = .disconnected then 1 else 0

section

variable {c c' : TcpClient} {room : Bool} {request : ClientIo}

theorem driven_started : Driven started := ⟨by decide, rfl, rfl⟩

/-- What takes no part in connecting makes no difference. -/
theorem Driven.congr (h : Driven c) (hstate : c'.state = c.state)
    (hconnection : c'.connection = c.connection)
    (hattempts : c'.attempts + c'.dropped.count .connect = c.attempts + c.dropped.count .connect)
    (hretries : c'.retries + c'.dropped.count .timeout = c.retries + c.dropped.count .timeout) :
    Driven c' :=
  ⟨by rw [hstate, hconnection]; exact h.connected, by rw [hattempts, hstate]; exact h.connecting,
    by rw [hretries, hstate]; exact h.waiting⟩

/-- A request takes the place of what asked for it, whether it finds room or not. -/
theorem count_submit (c : TcpClient) (room : Bool) (request : ClientIo) :
    (∀ r, (c.submit room request).requests.count r + (c.submit room request).dropped.count r
        = c.requests.count r + c.dropped.count r + [request].count r)
      ∧ (c.submit room request).posted = c.posted := by
  refine ⟨fun r => ?_, ?_⟩
  · cases room <;> simp only [submit, if_true, Bool.false_eq_true, if_false, List.count_append] <;>
      omega
  · cases room <;> rfl

theorem state_submit (c : TcpClient) (room : Bool) (request : ClientIo) :
    (c.submit room request).state = c.state
      ∧ (c.submit room request).connection = c.connection := by
  cases room <;> exact ⟨rfl, rfl⟩

theorem driven_submit (h : c.state = .connected ↔ c.connection ≠ none)
    (hattempts : c.attempts + c.dropped.count .connect + [request].count .connect
      = if c.state = .connecting then 1 else 0)
    (hretries : c.retries + c.dropped.count .timeout + [request].count .timeout
      = if c.state = .disconnected then 1 else 0) : Driven (c.submit room request) := by
  obtain ⟨hcount, hposted⟩ := count_submit c room request
  obtain ⟨hstate, hconnection⟩ := state_submit c room request
  refine ⟨by rw [hstate, hconnection]; exact h, ?_, ?_⟩
  · rw [hstate, ← hattempts, attempts, hposted, attempts]
    have := hcount .connect
    omega
  · rw [hstate, ← hretries, retries, hposted, retries]
    have := hcount .timeout
    omega

/-- The client waits, having lost its attempt or its connection. -/
theorem driven_scheduleReconnect (hstate : c.state = .disconnected)
    (hconnection : c.connection = none) (hattempts : c.attempts + c.dropped.count .connect = 0)
    (hretries : c.retries + c.dropped.count .timeout = 0) : Driven c.scheduleReconnect where
  connected := by simp [scheduleReconnect, post, hstate, hconnection]
  connecting := by simpa [scheduleReconnect, post, hstate, attempts] using hattempts
  waiting := by
    rw [retries] at hretries
    simp only [scheduleReconnect, post, hstate, retries, if_true, List.count_append,
      List.count_singleton_self]
    omega

/-- The client tries again, having waited. -/
theorem driven_connect (hconnected : c.state = .connected ↔ c.connection ≠ none)
    (hattempts : c.attempts + c.dropped.count .connect
      = if c.state = .connecting then 1 else 0)
    (hretries : c.retries + c.dropped.count .timeout = 0) : Driven c.connect := by
  rw [connect]
  split
  · rename_i hstate
    exact ⟨hconnected, hattempts, by rw [if_neg hstate, hretries]⟩
  · rename_i hstate
    rw [not_not] at hstate
    simp only [hstate, reduceCtorEq, if_false, false_iff] at hconnected hattempts
    refine ⟨by simpa [post] using hconnected, ?_, by simpa [post, retries] using hretries⟩
    rw [attempts] at hattempts
    simp only [post, attempts, if_true, List.count_append, List.count_singleton_self]
    omega

theorem Driven.handleDisconnect (h : Driven c) : Driven c.handleDisconnect := by
  rw [TcpClient.handleDisconnect]
  split
  · exact h
  · rename_i hstate
    rw [not_not] at hstate
    refine driven_scheduleReconnect rfl rfl ?_ ?_
    · simpa [hstate, callback, attempts] using h.connecting
    · simpa [hstate, callback, retries] using h.waiting

theorem Driven.startReading (h : Driven c) : Driven (c.startReading room) := by
  rw [TcpClient.startReading]
  split
  · exact h.congr rfl rfl rfl rfl
  · exact driven_submit h.connected h.connecting h.waiting

/-- In an attempt there is nothing else. -/
theorem Driven.of_attempts (h : Driven c) (hpos : 0 < c.attempts) :
    c.state = .connecting ∧ c.connection = none ∧ c.attempts + c.dropped.count .connect = 1
      ∧ c.retries + c.dropped.count .timeout = 0 := by
  have hstate : c.state = .connecting := by
    have hle := h.connecting
    by_contra hne
    rw [if_neg hne] at hle
    omega
  refine ⟨hstate, ?_, by rw [h.connecting, if_pos hstate], by rw [h.waiting, hstate]; rfl⟩
  by_contra hne
  rw [h.connected.mpr hne] at hstate
  cases hstate

theorem Driven.of_retries (h : Driven c) (hpos : 0 < c.retries) :
    c.state = .disconnected ∧ c.retries + c.dropped.count .timeout = 1 := by
  have hstate : c.state = .disconnected := by
    have hle := h.waiting
    by_contra hne
    rw [if_neg hne] at hle
    omega
  exact ⟨hstate, by rw [h.waiting, if_pos hstate]⟩

theorem Driven.runWork {work : PostedWork} {rest : List PostedWork} (h : Driven c)
    (hposted : c.posted = work :: rest) (socket : Bool) :
    Driven ({ c with posted := rest }.runWork socket room work) := by
  cases work with
  | connect =>
      obtain ⟨hstate, hnone, hone, hretries⟩ := h.of_attempts (by simp [attempts, hposted])
      simp only [attempts, retries, hposted, List.count_cons_self, List.count_cons_of_ne, ne_eq,
        reduceCtorEq, not_false_eq_true] at hone hretries
      cases socket with
      | false =>
          refine driven_scheduleReconnect rfl hnone ?_ hretries
          simp only [callback, attempts]
          omega
      | true =>
          refine driven_submit h.connected ?_ (by simpa [retries, hstate] using hretries)
          simp only [attempts, hstate, if_true, List.count_singleton_self]
          omega
  | write data =>
      have hrest : Driven { c with posted := rest } :=
        h.congr rfl rfl (by simp [attempts, hposted]) (by simp [retries, hposted])
      rw [TcpClient.runWork]
      split
      · exact hrest
      · exact driven_submit hrest.connected hrest.connecting hrest.waiting
  | reconnect =>
      have hattempts := h.connecting
      have hretries := h.waiting
      simp only [attempts, retries, hposted, List.count_cons_self, List.count_cons_of_ne, ne_eq,
        reduceCtorEq, not_false_eq_true] at hattempts hretries
      refine driven_submit h.connected hattempts ?_
      simp only [retries, List.count_singleton_self, ← hretries]
      omega

theorem Driven.runCallback (h : Driven c) (hmem : request ∈ c.requests) (result : Option Bytes) :
    Driven ({ c with requests := c.requests.erase request }.runCallback room request result) := by
  have hpos : 0 < c.requests.count request := List.count_pos_iff.mpr hmem
  have hone : (c.requests.erase request).count request = c.requests.count request - 1 :=
    List.count_erase_self
  -- a read or a write is no part of connecting
  have hother : request ≠ .connect → request ≠ .timeout →
      Driven { c with requests := c.requests.erase request } := by
    intro hconnect htimeout
    exact h.congr rfl rfl (by rw [attempts, attempts, List.count_erase_of_ne hconnect.symm])
      (by rw [retries, retries, List.count_erase_of_ne htimeout.symm])
  cases request with
  | connect =>
      obtain ⟨hstate, hnone, hattempts, hretries⟩ := h.of_attempts (by rw [attempts]; omega)
      rw [attempts] at hattempts
      rw [retries] at hretries
      have htimeouts : (c.requests.erase .connect).count .timeout = c.requests.count .timeout :=
        List.count_erase_of_ne (by simp)
      cases result with
      | none =>
          refine driven_scheduleReconnect rfl hnone ?_ ?_
          · simp only [callback, attempts]
            omega
          · simp only [callback, retries]
            omega
      | some data =>
          rw [TcpClient.runCallback]
          refine Driven.startReading ⟨by simp [newConnection, callback], ?_, ?_⟩
          · simp only [newConnection, callback, attempts, reduceCtorEq, if_false]
            omega
          · simp only [newConnection, callback, retries, reduceCtorEq, if_false]
            omega
  | read conn =>
      have hrest := hother (by simp) (by simp)
      cases result with
      | none => exact hrest.handleDisconnect
      | some data =>
          rw [TcpClient.runCallback]
          split
          · exact hrest.handleDisconnect
          · split
            · exact hrest.congr rfl rfl rfl rfl
            · exact Driven.startReading (hrest.congr rfl rfl rfl rfl)
  | write conn data =>
      have hrest := hother (by simp) (by simp)
      cases result with
      | none => exact hrest.handleDisconnect
      | some _ => exact hrest
  | timeout =>
      obtain ⟨hstate, hretries⟩ := h.of_retries (by rw [retries]; omega)
      rw [retries] at hretries
      have hconnects : (c.requests.erase .timeout).count .connect = c.requests.count .connect :=
        List.count_erase_of_ne (by simp)
      refine driven_connect h.connected ?_ ?_
      · simpa [attempts, hconnects] using h.connecting
      · simp only [retries]
        omega

theorem Driven.step {ev : TcpClientEvent} (h : Driven c) (hstep : c.step ev = some c') :
    Driven c' := by
  cases (moves_of_step hstep).2 with
  | unsent => exact h
  | sending => exact h.congr rfl rfl rfl rfl
  | post =>
      exact h.congr rfl rfl (by simp [TcpClient.post, attempts]) (by simp [TcpClient.post, retries])
  | work socket room work rest hposted => exact h.runWork hposted socket
  | complete request result room hmem => exact h.runCallback hmem result

theorem driven_run (run : Steps step AnyEvent started c) : Driven c :=
  run.invariant driven_started fun _ _ _ _ hstep _ h => h.step hstep

/-- Without a connection the posted work can run, and leaves the state as it is. -/
theorem exists_drained (hcrashed : c.crashed = false) (hnone : c.connection = none) :
    ∃ c', Steps step AnyEvent c c' ∧ c'.posted = [] ∧ c'.state = c.state ∧ c'.crashed = false
      ∧ c'.dropped = c.dropped := by
  induction hposted : c.posted generalizing c with
  | nil => exact ⟨c, .refl c, hposted, rfl, hcrashed, rfl⟩
  | cons work rest ih =>
      have hstep : c.step (.work true true)
          = some ({ c with posted := rest }.runWork true true work) := by
        simp [step, hcrashed, hposted]
      -- a write is dropped, the rest is submitted
      have hkept : ∀ d, d = { c with posted := rest }.runWork true true work →
          d.crashed = false ∧ d.connection = none ∧ d.posted = rest ∧ d.state = c.state
            ∧ d.dropped = c.dropped := by
        rintro d rfl
        cases work <;> simp [TcpClient.runWork, submit, hnone, hcrashed]
      obtain ⟨hcrashed', hnone', hposted', hstate', hdropped'⟩ := hkept _ rfl
      obtain ⟨c', run, hdone, hstate, hfine, hdropped⟩ := ih hcrashed' hnone' hposted'
      exact ⟨c', .head hstep trivial run, hdone, hstate.trans hstate', hfine,
        hdropped.trans hdropped'⟩

theorem Driven.steps (h : Driven c) (run : Steps TcpClient.step AnyEvent c c') : Driven c' :=
  run.invariant h fun _ _ _ _ hstep _ h => h.step hstep

theorem Driven.connection_eq_none (h : Driven c) (hstate : c.state ≠ .connected) :
    c.connection = none := by
  by_contra hne
  exact hstate (h.connected.mpr hne)

theorem Driven.exists_of_connecting (h : Driven c) (hstate : c.state = .connecting)
    (hcrashed : c.crashed = false) (hroom : .connect ∉ c.dropped) :
    ∃ c', Steps TcpClient.step AnyEvent c c' ∧ c'.state = .connected := by
  obtain ⟨c₁, run, hposted, hstate₁, hcrashed₁, hdropped⟩ :=
    exists_drained hcrashed (h.connection_eq_none (by simp [hstate]))
  have hone := (h.steps run).connecting
  rw [attempts, hposted, hdropped, List.count_eq_zero_of_not_mem hroom, hstate₁,
    if_pos hstate, List.count_nil] at hone
  have hmem : ClientIo.connect ∈ c₁.requests := List.count_pos_iff.mp (by omega)
  have hstep : c₁.step (.complete .connect (some []) true)
      = some
        ({ c₁ with requests := c₁.requests.erase .connect }.newConnection.startReading true) := by
    simp [TcpClient.step, hcrashed₁, hmem, TcpClient.runCallback]
  exact ⟨_, .tail run hstep trivial, rfl⟩

/-- The wait ends, and the attempt that follows it succeeds. -/
theorem Driven.exists_of_disconnected (h : Driven c) (hstate : c.state = .disconnected)
    (hcrashed : c.crashed = false) (hroom : .connect ∉ c.dropped ∧ .timeout ∉ c.dropped) :
    ∃ c', Steps TcpClient.step AnyEvent c c' ∧ c'.state = .connected := by
  obtain ⟨c₁, run₁, hposted, hstate₁, hcrashed₁, hdropped⟩ :=
    exists_drained hcrashed (h.connection_eq_none (by simp [hstate]))
  have hone := (h.steps run₁).waiting
  rw [retries, hposted, hdropped, List.count_eq_zero_of_not_mem hroom.2, hstate₁,
    if_pos hstate, List.count_nil] at hone
  have hmem : ClientIo.timeout ∈ c₁.requests := List.count_pos_iff.mp (by omega)
  let c₂ := { c₁ with
    requests := c₁.requests.erase .timeout, state := .connecting, posted := [.connect] }
  have hstep : c₁.step (.complete .timeout none true) = some c₂ := by
    simp [TcpClient.step, hcrashed₁, hmem, TcpClient.runCallback, TcpClient.connect, hstate₁,
      hstate, post, hposted, c₂]
  have run₂ : Steps TcpClient.step AnyEvent c c₂ := .tail run₁ hstep trivial
  obtain ⟨c', run₃, hconnected⟩ :=
    (h.steps run₂).exists_of_connecting rfl hcrashed₁ (hdropped ▸ hroom.1)
  exact ⟨c', run₂.trans run₃, hconnected⟩

theorem dropped_handleDisconnect (c : TcpClient) : c.handleDisconnect.dropped = c.dropped := by
  rw [TcpClient.handleDisconnect]
  split <;> rfl

theorem dropped_submit (c : TcpClient) (room : Bool) (request : ClientIo) :
    c.dropped <+: (c.submit room request).dropped := by
  cases room with
  | true => exact List.prefix_rfl
  | false => exact List.prefix_append _ _

theorem dropped_startReading (c : TcpClient) (room : Bool) :
    c.dropped <+: (c.startReading room).dropped := by
  rw [TcpClient.startReading]
  split
  · exact List.prefix_rfl
  · exact dropped_submit _ _ _

theorem dropped_runWork (c : TcpClient) (socket room : Bool) (work : PostedWork) :
    c.dropped <+: (c.runWork socket room work).dropped := by
  cases work with
  | connect =>
      cases socket with
      | true => exact dropped_submit c room _
      | false => exact List.prefix_rfl
  | write data =>
      rw [TcpClient.runWork]
      split
      · exact List.prefix_rfl
      · exact dropped_submit c room _
  | reconnect => exact dropped_submit c room _

theorem dropped_runCallback (c : TcpClient) (room : Bool) (request : ClientIo)
    (result : Option Bytes) : c.dropped <+: (c.runCallback room request result).dropped := by
  cases request with
  | connect =>
      cases result with
      | some _ => exact dropped_startReading c.newConnection room
      | none => exact List.prefix_rfl
  | read conn =>
      cases result with
      | none => exact (dropped_handleDisconnect c).symm ▸ List.prefix_rfl
      | some data =>
          rw [TcpClient.runCallback]
          split
          · exact (dropped_handleDisconnect c).symm ▸ List.prefix_rfl
          · split
            · exact List.prefix_rfl
            · exact dropped_startReading ((c.fill conn data).callback _) room
  | write conn data =>
      cases result with
      | none => exact (dropped_handleDisconnect c).symm ▸ List.prefix_rfl
      | some _ => exact List.prefix_rfl
  | timeout =>
      rw [TcpClient.runCallback, TcpClient.connect]
      split <;> exact List.prefix_rfl

/-- What was dropped is not made up for. -/
theorem Moves.dropped {ev : TcpClientEvent} (h : Moves c ev c') : c.dropped <+: c'.dropped := by
  cases h with
  | unsent => exact List.prefix_rfl
  | sending => exact List.prefix_rfl
  | post => exact List.prefix_rfl
  | work socket room work rest => exact dropped_runWork { c with posted := rest } socket room work
  | complete request result room =>
      exact dropped_runCallback { c with requests := c.requests.erase request } room request result

theorem dropped_of_run (run : Steps step AnyEvent c c') : c.dropped <+: c'.dropped :=
  run.invariant (I := fun d => c.dropped <+: d.dropped) (List.prefix_rfl)
    fun _ _ _ _ hstep _ h => h.trans (moves_of_step hstep).2.dropped

theorem Driven.not_dropped (h : Driven c) (hstate : c.state = .connected) :
    .connect ∉ c.dropped ∧ .timeout ∉ c.dropped := by
  have hattempts := h.connecting
  have hretries := h.waiting
  simp only [hstate, reduceCtorEq, if_false] at hattempts hretries
  exact ⟨List.count_eq_zero.mp (by omega), List.count_eq_zero.mp (by omega)⟩

end

/-- Of a connection, an attempt and a reconnect to come the client always has exactly one,
those counted that the ring had no room for. These are the only thing that can stop it: if
it has not crashed, it can still become connected if and only if there are none. -/
theorem keeps_connecting {c : TcpClient} (run : Steps step AnyEvent started c) :
    (c.state = .connected ↔ c.connection ≠ none)
      ∧ c.attempts + c.dropped.count .connect = (if c.state = .connecting then 1 else 0)
      ∧ c.retries + c.dropped.count .timeout = (if c.state = .disconnected then 1 else 0)
      ∧ (c.crashed = false →
        ((∃ c', Steps step AnyEvent c c' ∧ c'.state = .connected)
          ↔ .connect ∉ c.dropped ∧ .timeout ∉ c.dropped)) := by
  have h := driven_run run
  refine ⟨h.connected, h.connecting, h.waiting, fun hcrashed => ⟨?_, fun hroom => ?_⟩⟩
  · rintro ⟨c', run', hconnected⟩
    obtain ⟨hconnect, htimeout⟩ := (h.steps run').not_dropped hconnected
    have hsub := (dropped_of_run run').subset
    exact ⟨fun hmem => hconnect (hsub hmem), fun hmem => htimeout (hsub hmem)⟩
  · cases hstate : c.state with
    | connected => exact ⟨c, .refl c, hstate⟩
    | connecting => exact h.exists_of_connecting hstate hcrashed hroom.1
    | disconnected => exact h.exists_of_disconnected hstate hcrashed hroom

/-- A socket that cannot be had, a wait, a connection refused. -/
def refused : List TcpClientEvent :=
  [.work false true, .work false true, .complete .timeout none true, .work true true,
    .complete .connect none true]

theorem keeps_connecting_refused :
    ∃ c, Steps step AnyEvent started c ∧ c.posted = [.reconnect]
      ∧ ∃ c', Steps step AnyEvent c c' ∧ c'.state = .connected := by
  obtain ⟨c, run, hposted, hcrashed, hdropped⟩ := exists_of_replay step AnyEvent started refused
    (P := fun c => c.posted = [.reconnect] ∧ c.crashed = false ∧ c.dropped = []) (by decide)
  refine ⟨c, run, hposted, ((keeps_connecting run).2.2.2 hcrashed).mpr ?_⟩
  rw [hdropped]
  exact ⟨by simp, by simp⟩

end TcpClient

end VsrKv
