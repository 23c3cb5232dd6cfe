import VsrKv.TcpClient

/-!
# What the client writes

`send` checks for a connection and posts the write, which takes whatever
connection there is when it runs. So data is written at most once and in
the order of the calls, though perhaps to a later connection than the
one it was meant for, or to none (`written_at_most_once`).
-/

namespace VsrKv

open TransitionSystem

namespace TcpClient

/-- The writes submitted, each with its connection. -/
def written (c : TcpClient) : List (Nat × Bytes) := c.submitted.filterMap ClientIo.write?

/-- Of the sends whose post has run, some have been written, in order. -/
structure Sent (c : TcpClient) : Prop where
  latest : ∀ conn, c.connection = some conn → c.connections = conn + 1
  made : ∀ w ∈ c.written, w.1 < c.connections
  onward : c.written.Pairwise fun w w' => w.1 ≤ w'.1
  once : ∃ ran, c.accepted = ran ++ c.posted.filterMap PostedWork.write?
    ∧ (c.written.map (·.2)).Sublist ran

section

variable {c c' : TcpClient} {room : Bool} {request : ClientIo}

/-- Nothing is written. -/
theorem Sent.congr (h : Sent c) (hconnection : c'.connection = c.connection)
    (hconnections : c'.connections = c.connections) (hwritten : c'.written = c.written)
    (haccepted : c'.accepted = c.accepted)
    (hposted : c'.posted.filterMap PostedWork.write? = c.posted.filterMap PostedWork.write?) :
    Sent c' where
  latest := by rw [hconnection, hconnections]; exact h.latest
  made := by rw [hwritten, hconnections]; exact h.made
  onward := by rw [hwritten]; exact h.onward
  once := by rw [haccepted, hposted, hwritten]; exact h.once

theorem Sent.submit (h : Sent c) (hrequest : request.write? = none) (room : Bool) :
    Sent (c.submit room request) := by
  cases room with
  | false => exact h.congr rfl rfl rfl rfl rfl
  | true =>
      refine h.congr rfl rfl ?_ rfl rfl
      simp [TcpClient.submit, written, hrequest]

theorem Sent.startReading (h : Sent c) (room : Bool) : Sent (c.startReading room) := by
  rw [TcpClient.startReading]
  split
  · exact h.congr rfl rfl rfl rfl rfl
  · exact h.submit rfl room

theorem Sent.scheduleReconnect (h : Sent c) : Sent c.scheduleReconnect := by
  refine h.congr rfl rfl rfl rfl ?_
  simp [TcpClient.scheduleReconnect, TcpClient.post, PostedWork.write?]

theorem Sent.connectFailed (h : Sent c) : Sent c.connectFailed :=
  Sent.scheduleReconnect (h.congr rfl rfl rfl rfl rfl)

theorem Sent.handleDisconnect (h : Sent c) : Sent c.handleDisconnect := by
  rw [TcpClient.handleDisconnect]
  split
  · exact h
  · exact Sent.scheduleReconnect ⟨fun conn hconn => (by cases hconn), h.made, h.onward, h.once⟩

/-- The post of a send has run; without a connection, or room, nothing comes of it. -/
theorem Sent.write {data : Bytes} {rest : List PostedWork} (h : Sent c)
    (hposted : c.posted = .write data :: rest) (socket : Bool) :
    Sent ({ c with posted := rest }.runWork socket room (.write data)) := by
  obtain ⟨hlatest, hmade, honward, ran, haccepted, hsub⟩ := h
  have haccepted' : c.accepted = (ran ++ [data]) ++ rest.filterMap PostedWork.write? := by
    rw [haccepted, hposted, List.append_assoc]
    rfl
  have hdropped : (c.written.map (·.2)).Sublist (ran ++ [data]) :=
    hsub.trans (List.sublist_append_left _ _)
  rw [TcpClient.runWork]
  split
  · exact ⟨hlatest, hmade, honward, ran ++ [data], haccepted', hdropped⟩
  · rename_i conn hconn
    cases room with
    | false => exact ⟨hlatest, hmade, honward, ran ++ [data], haccepted', hdropped⟩
    | true =>
        have hnew : ({ c with posted := rest }.submit true (.write conn data)).written
            = c.written ++ [(conn, data)] := by
          simp [TcpClient.submit, written, ClientIo.write?]
        have hlt := hlatest conn hconn
        refine ⟨hlatest, ?_, ?_, ran ++ [data], haccepted', ?_⟩
        · rw [hnew]
          intro w hw
          rcases List.mem_append.mp hw with hw | hw
          · exact hmade w hw
          · obtain rfl := List.mem_singleton.mp hw
            exact (Nat.lt_succ_self conn).trans_eq hlt.symm
        · rw [hnew]
          refine List.pairwise_append.mpr ⟨honward, List.pairwise_singleton _ _, ?_⟩
          intro w hw w' hw'
          obtain rfl := List.mem_singleton.mp hw'
          exact Nat.le_of_lt_succ ((hmade w hw).trans_eq hlt)
        · rw [hnew, List.map_append]
          exact hsub.append (List.Sublist.refl _)

theorem Sent.runWork {work : PostedWork} {rest : List PostedWork} (h : Sent c)
    (hposted : c.posted = work :: rest) (socket : Bool) :
    Sent ({ c with posted := rest }.runWork socket room work) := by
  have hrest : work.write? = none → Sent { c with posted := rest } := by
    intro hnone
    exact h.congr rfl rfl rfl rfl (by rw [hposted, List.filterMap_cons_none hnone])
  cases work with
  | connect =>
      cases socket with
      | true => exact (hrest rfl).submit rfl room
      | false => exact (hrest rfl).connectFailed
  | write data => exact h.write hposted socket
  | reconnect => exact (hrest rfl).submit rfl room

theorem Sent.connect (h : Sent c) : Sent c.connect := by
  rw [TcpClient.connect]
  split
  · exact h
  · refine h.congr rfl rfl rfl rfl ?_
    simp [TcpClient.post, PostedWork.write?]

theorem Sent.runCallback (h : Sent c) (request : ClientIo) (result : Option Bytes) :
    Sent (c.runCallback room request result) := by
  cases request with
  | connect =>
      cases result with
      | none => exact h.connectFailed
      | some data =>
          have hnew : Sent c.newConnection := by
            refine ⟨fun conn hconn => ?_, fun w hw => (h.made w hw).trans (Nat.lt_succ_self _),
              h.onward, h.once⟩
            obtain rfl := Option.some.inj hconn
            rfl
          exact hnew.startReading room
  | read conn =>
      cases result with
      | none => exact h.handleDisconnect
      | some data =>
          rw [TcpClient.runCallback]
          split
          · exact h.handleDisconnect
          · split
            · exact h.congr rfl rfl rfl rfl rfl
            · exact Sent.startReading (c := (c.fill conn data).callback _)
                (h.congr rfl rfl rfl rfl rfl) room
  | write conn data =>
      cases result with
      | none => exact h.handleDisconnect
      | some _ => exact h
  | timeout => exact h.connect

theorem Sent.step {ev : TcpClientEvent} (h : Sent c) (hstep : c.step ev = some c') : Sent c' := by
  cases (moves_of_step hstep).2 with
  | unsent => exact h
  | sending => exact h.congr rfl rfl rfl rfl rfl
  | post data hsending =>
      obtain ⟨hlatest, hmade, honward, ran, haccepted, hsub⟩ := h
      refine ⟨hlatest, hmade, honward, ran, ?_, hsub⟩
      simp [TcpClient.post, haccepted, PostedWork.write?]
  | work socket room work rest hposted => exact h.runWork hposted socket
  | complete request result room hmem =>
      have hrest : Sent { c with requests := c.requests.erase request } :=
        h.congr rfl rfl rfl rfl rfl
      exact hrest.runCallback request result

end

/-- What is written are sends, each at most once and in their order, of those whose turn has
come; and no write goes to an older connection than one before it. -/
theorem written_at_most_once {c : TcpClient} (run : Steps step AnyEvent started c) :
    (∃ ran, c.accepted = ran ++ c.posted.filterMap PostedWork.write?
        ∧ (c.written.map (·.2)).Sublist ran)
      ∧ c.written.Pairwise (fun w w' => w.1 ≤ w'.1) ∧ ∀ w ∈ c.written, w.1 < c.connections := by
  have h : Sent c := run.invariant
    ⟨fun conn hconn => (by cases hconn), by decide, by decide, [], by decide, by decide⟩
    fun _ _ _ _ hstep _ h => h.step hstep
  exact ⟨h.once, h.onward, h.made⟩

/-- Two sends, of which the second is posted when its connection is lost and the next made. -/
def twoSends : List TcpClientEvent :=
  [.work true true, .complete .connect (some []) true, .send [1], .post, .work true true,
    .send [2], .complete (.read 0) none true, .work true true, .complete .timeout none true,
    .work true true, .complete .connect (some []) true, .post, .work true true]

theorem written_at_most_once_of_two :
    ∃ c, Steps step AnyEvent started c ∧ c.written = [(0, [1]), (1, [2])]
      ∧ c.written.Pairwise (fun w w' => w.1 ≤ w'.1) := by
  obtain ⟨c, run, hwritten⟩ := exists_of_replay step AnyEvent started twoSends
    (P := fun c => c.written = [(0, [1]), (1, [2])]) (by decide)
  exact ⟨c, run, hwritten, (written_at_most_once run).2.1⟩

end TcpClient

end VsrKv
