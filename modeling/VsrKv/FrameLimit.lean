import VsrKv.OwnAcks
import VsrKv.ProtocolHandler

/-!
# Logs that outgrow a frame

`handle_raw_data` takes no message of more than 65536 bytes and closes
the connection on one that says it is longer. The senders know of no
limit, and `DoViewChange`, `StartView` and `RecoveryResponse` carry the
whole log, which is never cut. A log of a few dozen requests is enough
for a message that no peer accepts (`log_outgrows_frame`).

Whether a peer can receive a message is a matter of its payload alone
(`received_iff`). In a run in which the logs that are sent, when they
are sent, fit a frame (`FramesFit`), everything does
(`sent_messages_received`).
-/

namespace VsrKv

open Replica TransitionSystem
open Event (process receive request)

/-! ## Sizes -/

/-- The longest payload that `handle_raw_data` lets through. -/
def maxPayload : Nat := maxMessageSize - headerSize

/-- The bytes of a log on the wire. -/
def logSize (log : Log) : Nat := 8 + (log.toList.map fun p => 41 + p.2.payload.length).sum

theorem length_writeLogToBuffer (log : Log) : (writeLogToBuffer log).length = logSize log := by
  have hentry : ∀ p : Nat × LogEntry,
      (writeLogEntry p.1 p.2).length = 41 + p.2.payload.length := by
    intro p
    simp only [writeLogEntry, List.length_append, LittleEndian.length_encode, length_writeUInt128]
  simp only [writeLogToBuffer, logSize, List.length_append, LittleEndian.length_encode,
    List.length_flatMap, hentry]

theorem length_doViewChange (s : ReplicaState) :
    (doViewChangeMessage s).payload.length = 4 + logSize s.log := by
  show (DoViewChangePayload.serialize _).length = _
  rw [DoViewChangePayload.serialize, List.length_append, LittleEndian.length_encode,
    length_writeLogToBuffer]

theorem length_startView (s : ReplicaState) :
    (startViewMessage s).payload.length = logSize s.log :=
  length_writeLogToBuffer s.log

theorem length_recoveryResponse (s : ReplicaState) (nonce : UInt128) :
    (recoveryResponseMessage s nonce).payload.length = 16 + logSize s.log := by
  show (RecoveryResponsePayload.serialize _).length = _
  rw [RecoveryResponsePayload.serialize, List.length_append, length_writeUInt128,
    length_writeLogToBuffer]

/-! ## Receiving one message -/

section

variable {H : Bytes → UInt128} {m : VsrMessage}

/-- No message gets through that is longer than a frame. -/
theorem length_of_delivered {buffer : Option Bytes} {data : Bytes}
    (h : m ∈ (handleRawData H buffer data).1) : m.payload.length ≤ maxPayload := by
  cases buffer with
  | none => cases h
  | some buf =>
      refine Framing.forall_mem_run (P := fun m => m.payload.length ≤ maxPayload)
        nextFrame_stable ?_ (buf ++ data) m h
      intro buf m size hnext
      have hmax := (of_nextFrame hnext).2.1
      have hsize := (serialize_of_nextFrame hnext).2
      rw [VsrMessage.length_serialize] at hsize
      rw [maxPayload]
      omega

/-- The bytes of `m`, fed to a peer with an empty buffer, are delivered and
the connection stays open. -/
def Received (H : Bytes → UInt128) (m : VsrMessage) : Prop :=
  handleRawData H (some []) (m.serialize H) = ([m.stamped H], some [])

theorem received_iff (hr : m.header.InRange) :
    Received H m ↔ m.payload.length ≤ maxPayload := by
  constructor
  · intro h
    have hmem : m.stamped H ∈ (handleRawData H (some []) (m.serialize H)).1 := by
      rw [show handleRawData H (some []) (m.serialize H) = ([m.stamped H], some []) from h]
      exact List.mem_singleton_self _
    exact length_of_delivered (m := m.stamped H) hmem
  · intro h
    have hlen : (m.serialize H).length ≤ maxMessageSize := by
      rw [VsrMessage.length_serialize]
      rw [maxPayload] at h
      have : headerSize ≤ maxMessageSize := by decide
      omega
    have hms : ∀ m' ∈ [m], m'.header.InRange ∧ (m'.serialize H).length ≤ maxMessageSize := by
      simpa using ⟨hr, hlen⟩
    have hrun := run_serialized hms
    simpa [Received, handleRawData, Framing.receive] using hrun

/-- A message that is too long, as long as its size does not wrap, costs the
connection. -/
theorem handleRawData_oversize (hr : m.header.InRange) (hmax : maxPayload < m.payload.length)
    (hlen : m.payload.length < 2 ^ 32 - headerSize) :
    handleRawData H (some []) (m.serialize H) = ([], none) := by
  have hread : readHeader (m.serialize H) = some ((m.stamped H).header, m.payload) :=
    readHeader_bytes (VsrMessage.inRange_stamped hr) m.payload
  have hsize : (m.stamped H).header.size = (m.serialize H).length := VsrMessage.size_stamped hlen
  have hbad : nextFrame H (m.serialize H) = .bad := by
    have hover : (m.serialize H).length > maxMessageSize := by
      rw [VsrMessage.length_serialize]
      rw [maxPayload] at hmax
      omega
    simp only [nextFrame, hread, hsize, hover, or_true, if_true]
  exact Framing.run_bad nextFrame_stable hbad

end

/-! ## What a replica sends when it handles a message -/

/-- What handling `msg` makes a replica send fits a frame: the payload of a
request that it passes on, and the log that goes out with a vote, with the
start of a view or to a recovering replica. -/
structure FitsFrame (u : Nat) (s : ReplicaState) (msg : VsrMessage) : Prop where
  request : msg.header.command = .request → msg.payload.length ≤ maxPayload
  vote : checkCanProcessStartViewChange s msg = true → (builtVote? s msg).isSome = true →
    s.getPrimaryIdForView s.view ≠ some s.id → 4 + logSize s.log ≤ maxPayload
  start : checkCanProcessDoViewChange s msg = true → ∀ votes ∈ completingVotes? s msg,
    logSize (selectLog u s.commit votes).payload.log ≤ maxPayload
  response : msg.header.command = .recovery → s.status = .normal →
    (RecoveryRequestPayload.deserialize msg.payload).isSome = true →
    16 + logSize s.log ≤ maxPayload

instance (u : Nat) (s : ReplicaState) (msg : VsrMessage) : Decidable (FitsFrame u s msg) :=
  decidable_of_iff
    ((msg.header.command = .request → msg.payload.length ≤ maxPayload)
      ∧ (checkCanProcessStartViewChange s msg = true → (builtVote? s msg).isSome = true →
        s.getPrimaryIdForView s.view ≠ some s.id → 4 + logSize s.log ≤ maxPayload)
      ∧ (checkCanProcessDoViewChange s msg = true → ∀ votes ∈ completingVotes? s msg,
        logSize (selectLog u s.commit votes).payload.log ≤ maxPayload)
      ∧ (msg.header.command = .recovery → s.status = .normal →
        (RecoveryRequestPayload.deserialize msg.payload).isSome = true →
        16 + logSize s.log ≤ maxPayload))
    ⟨fun ⟨h₁, h₂, h₃, h₄⟩ => ⟨h₁, h₂, h₃, h₄⟩,
      fun h => ⟨h.request, h.vote, h.start, h.response⟩⟩

/-- A server message with a payload that fits. -/
def Fitting (m : VsrMessage) : Prop := isServerMessage m = true → m.payload.length ≤ maxPayload

section

variable {env : Env} {s s' : ReplicaState} {im : InboundMessage} {effs : List Effect}

theorem Fitting.of_nil {m : VsrMessage} (h : m.payload = []) : Fitting m := by
  intro _
  rw [h]
  exact Nat.zero_le _

theorem Fitting.of_executed (hexec : Executed s s' effs) :
    ∀ eff ∈ effs, ∀ m, eff.message? = some m → Fitting m := by
  intro eff heff m hm
  cases hexec.effects eff heff with
  | executed => cases hm
  | reply =>
      cases hm
      intro hserver
      simp [isServerMessage, replyMessage] at hserver

theorem FitsFrame.acts (h : FitsFrame env.uninitialized s im.message)
    (hacts : Acts env s im s' effs) :
    ∀ eff ∈ effs, ∀ m, eff.message? = some m → Fitting m := by
  intro eff heff m hm
  cases hacts with
  | ignore => cases heff
  | pong msg hcmd hmsg =>
      obtain rfl := List.mem_singleton.mp heff
      cases hm
      intro hserver
      simp [isServerMessage, hmsg] at hserver
  | old _ _ _ effs heffs =>
      rw [(heffs eff heff).2] at hm
      cases hm
      intro hserver
      simp [isServerMessage, cachedReply] at hserver
  | propose hcmd =>
      obtain rfl := List.mem_singleton.mp heff
      cases hm
      intro _
      exact h.request hcmd
  | accept _ effs _ _ _ _ _ hexec =>
      rcases List.mem_cons.mp heff with rfl | heff
      · cases hm
        exact .of_nil rfl
      · exact .of_executed hexec eff heff m hm
  | acknowledge _ _ _ _ _ _ _ _ hexec => exact .of_executed hexec eff heff m hm
  | learn _ _ _ _ _ _ hexec => exact .of_executed hexec eff heff m hm
  | join => cases heff
  | vote p hcmd hview hst hquorum hp hne =>
      obtain rfl := List.mem_singleton.mp heff
      cases hm
      intro _
      rw [length_doViewChange]
      refine h.vote ?_ ?_ ?_
      · simp [checkCanProcessStartViewChange, hview, hst]
      · rw [builtVote?, if_pos ⟨hcmd, hquorum⟩]
        rfl
      · rw [hp]
        simpa using hne
  | discard => cases heff
  | collect => cases heff
  | startView s₁ d hcollect hquorum best hbest _ effs hexec =>
      rcases List.mem_cons.mp heff with rfl | heff
      · cases hm
        intro _
        rw [length_startView]
        subst hbest
        exact h.start hcollect.canProcess _ (hcollect.completing hquorum)
      · exact .of_executed hexec eff heff m hm
  | adopt _ _ effs _ _ _ _ _ hexec =>
      rcases List.mem_append.mp heff with heff | heff
      · exact .of_executed hexec eff heff m hm
      · obtain ⟨n, -, -, rfl⟩ := retroactivePrepareOks_spec heff
        cases hm
        exact .of_nil rfl
  | respond request hcmd hst hrequest =>
      obtain rfl := List.mem_singleton.mp heff
      cases hm
      intro _
      rw [length_recoveryResponse]
      exact h.response hcmd hst (by rw [hrequest]; rfl)
  | gather => cases heff
  | recover _ _ _ _ _ _ _ _ _ _ _ hexec => exact .of_executed hexec eff heff m hm

end

/-! ## Along a run -/

/-- The message a client submits. -/
def Event.submitted? : Event → Option VsrMessage
  | .client _ _ msg => some msg
  | _ => none

namespace Cluster

variable {c c' : Cluster} {ev : Event} {i : Nat}

/-- What a step makes a replica send fits a frame. -/
def FramesFit (c : Cluster) (ev : Event) (_ : Cluster) : Prop :=
  ∀ turn ∈ ev.turn?, ∀ im ∈ (c.queue turn.1).head?,
    FitsFrame turn.2.uninitialized (c.state turn.1) im.message

instance (c : Cluster) (ev : Event) (c' : Cluster) : Decidable (FramesFit c ev c') :=
  inferInstanceAs (Decidable (∀ turn ∈ ev.turn?, ∀ im ∈ (c.queue turn.1).head?, _))

theorem Moves.fitting (hmoves : Moves c ev c') (hok : FramesFit c ev c')
    (h : ∀ i m, c.Sent i m → Fitting m) : ∀ i m, c'.Sent i m → Fitting m := by
  intro j m hsent
  have hlocal : ∀ {i : Nat} {s' : ReplicaState} {q' : List InboundMessage} {effs : List Effect},
      Local c c' i s' q' effs → (∀ eff ∈ effs, ∀ m, eff.message? = some m → Fitting m) →
      Fitting m := by
    intro i s' q' effs hlocal hall
    rcases hlocal.sent.mp hsent with hsent | ⟨rfl, eff, heff, hm⟩
    · exact h j m hsent
    · exact hall eff heff m hm
  have hsame : c'.trace = c.trace → Fitting m := fun htrace =>
    h j m ((sent_congr htrace).mp hsent)
  cases hmoves with
  | quiet _ _ htrace => exact hsame htrace
  | duplicate _ _ _ _ htrace => exact hsame htrace
  | act i env hev im rest s' effs hqueue hstale hacts hl =>
      have hturn : (i, env) ∈ ev.turn? := by rw [hev]; rfl
      have hhead : im ∈ (c.queue i).head? := by rw [hqueue]; rfl
      exact hlocal hl ((hok (i, env) hturn im hhead).acts hacts)
  | enterView i s' hst hs' hl =>
      exact hlocal hl (forall_message_singleton rfl (.of_nil rfl))
  | enterRecovery i stuck rest nonce s' hst hqueue hcan haction hs' hl =>
      refine hlocal hl (forall_message_singleton rfl ?_)
      intro _
      show (writeUInt128 s'.recoveryNonce).length ≤ maxPayload
      rw [length_writeUInt128]
      decide
  | heartbeat i hst hprimary hl =>
      exact hlocal hl (forall_message_singleton rfl (.of_nil rfl))
  | restart _ _ _ _ _ _ htrace => exact hsame htrace

theorem fitting_run {n : Nat} (run : Run FramesFit (init n) c) :
    ∀ i m, c.Sent i m → Fitting m := by
  refine run.invariant (I := fun c => ∀ i m, c.Sent i m → Fitting m) ?_ ?_
  · rintro i m ⟨eff, heff, -⟩
    cases heff
  · intro _ _ _ run hstep hok h
    exact (step_moves (static_run run) hstep).fitting hok h

/-- Where the logs that are sent fit a frame, peers can receive all that
replicas send each other; and in every run, a message can be received just
if its payload fits. -/
theorem sent_messages_received (n : Nat) :
    (∀ c, Run FramesFit (init n) c → ∀ i m, c.Sent i m → isServerMessage m = true →
      ∀ H : Bytes → UInt128,
        handleRawData H (some []) (m.serialize H) = ([m.stamped H], some []))
    ∧ (∀ ok c, Run ok (init n) c → ∀ i m, c.Sent i m → isServerMessage m = true →
      ∀ H : Bytes → UInt128,
        handleRawData H (some []) (m.serialize H) = ([m.stamped H], some [])
          ↔ m.payload.length ≤ 65408) := by
  have hiff : ∀ ok c, Run ok (init n) c → ∀ i m, c.Sent i m → isServerMessage m = true →
      ∀ H : Bytes → UInt128, Received H m ↔ m.payload.length ≤ 65408 := by
    intro ok c run i m hsent hserver H
    exact received_iff (((bounded_run run).sent i m hsent).header hserver)
  refine ⟨?_, hiff⟩
  intro c run i m hsent hserver H
  exact (hiff _ c run i m hsent hserver H).mpr (fitting_run run i m hsent hserver)

/-- A request, and a view change in which its log goes out with a vote and
with the start of the view. -/
theorem sent_messages_received_view_change :
    ∃ c m m', Run FramesFit (init 3) c
      ∧ c.Sent 2 m ∧ m.header.command = .doViewChange
      ∧ c.Sent 1 m' ∧ m'.header.command = .startView
      ∧ ∀ H : Bytes → UInt128,
        handleRawData H (some []) (m.serialize H) = ([m.stamped H], some [])
          ∧ handleRawData H (some []) (m'.serialize H) = ([m'.stamped H], some []) := by
  obtain ⟨c, run, hvote, hstart⟩ := exists_of_replay step FramesFit (init 3)
    (request 0 7 (setRequest 1 1 [97, 32, 98]) ++ receive 0 1 ++ [.timeout 1, .timeout 2]
      ++ receive 5 1 ++ receive 3 2 ++ receive 4 1)
    (P := fun c =>
      (∃ p ∈ c.trace, p.1 = 2 ∧ ∃ m ∈ p.2.message?, m.header.command = .doViewChange)
        ∧ ∃ p ∈ c.trace, p.1 = 1 ∧ ∃ m ∈ p.2.message?, m.header.command = .startView)
    (by decide +kernel)
  obtain ⟨⟨_, eff⟩, hmem, rfl, m, hm, hcmd⟩ := hvote
  obtain ⟨⟨_, eff'⟩, hmem', rfl, m', hm', hcmd'⟩ := hstart
  have hsent : c.Sent 2 m := ⟨eff, hmem, hm⟩
  have hsent' : c.Sent 1 m' := ⟨eff', hmem', hm'⟩
  refine ⟨c, m, m', run, hsent, hcmd, hsent', hcmd', ?_⟩
  intro H
  have hall := (sent_messages_received 3).1 c run
  exact ⟨hall 2 m hsent (by simp [isServerMessage, hcmd]) H,
    hall 1 m' hsent' (by simp [isServerMessage, hcmd']) H⟩

/-! ## A log that does not fit -/

theorem dispatch_sends_vote (env : Env) {r : Replica} {im : InboundMessage} {d : VsrMessage}
    {p : Nat} (hout : r.out = []) (hvote : builtVote? r.state im.message = some d)
    (hp : r.state.getPrimaryIdForView r.state.view = some p) (hne : p ≠ r.state.id) :
    (Node.dispatch env r im).out = [.toPeer p d] := by
  obtain ⟨hcmd, -, -⟩ := builtVote?_eq_some hvote
  have hp' : ReplicaState.getPrimaryIdForView
      { r.state with startViewChangeReceived := ∅ } r.state.view = some p := hp
  simp only [Node.dispatch, hcmd]
  rw [handleStartViewChange_eq env r hcmd, hvote]
  simp only [hp', if_neg hne, sendToPeer, emit, hout, List.nil_append]

/-- The turn in which a replica sends its vote. -/
theorem exists_sent_vote (hstatic : Static c) (hlt : i < c.size) {im : InboundMessage}
    {d : VsrMessage} {p : Nat} (hhandles : (c.nodes i).handles? = some im)
    (hvote : builtVote? (c.state i) im.message = some d)
    (hp : (c.state i).getPrimaryIdForView (c.state i).view = some p) (hne : p ≠ i) :
    ∃ c', c.step (.tick i {}) = some c' ∧ c'.Sent i d := by
  have hpass : (c.nodes i).pass ≠ none := by
    intro hpass
    rw [Node.handles?, hpass] at hhandles
    cases hhandles
  have hstep : c.step (.tick i {}) = some (c.put i ((c.nodes i).tick {})) :=
    if_pos ⟨hlt, hpass⟩
  obtain ⟨-, rest, -, -, hlocal⟩ := local_of_handles hstatic hstep hhandles
  have hne' : p ≠ (c.nodes i).replica.state.id := by
    rw [show (c.nodes i).replica.state.id = i from hstatic.id i]
    exact hne
  have hout := dispatch_sends_vote {} (hstatic.out i) hvote hp hne'
  refine ⟨_, hstep, .toPeer p d, ?_, rfl⟩
  rw [hlocal.trace, hout]
  simp

/-- Requests of 2 KiB each. -/
def largeRequests (k : Nat) : List Event :=
  (List.range k).flatMap fun j => request 0 7 (setRequest 1 (j + 1) (List.replicate 2048 0))

/-- Thirty-two requests of 2 KiB, and two backups that suspect the primary:
the vote the primary then sends with its log costs it the connection. -/
theorem log_outgrows_frame :
    ∃ c m, Run (fun c ev c' => Unbroken c ev c' ∧
        ∀ msg ∈ ev.submitted?, 128 + msg.payload.length ≤ 65536) (init 3) c
      ∧ c.Sent 0 m ∧ m.header.command = .doViewChange
      ∧ ∀ H : Bytes → UInt128, handleRawData H (some []) (m.serialize H) = ([], none) := by
  obtain ⟨c, run, ⟨c', hstep, hok⟩, ⟨im, hhandles, hvote⟩, hp, hmax, hlen⟩ :=
    exists_of_replay step
      (fun c ev c' => Unbroken c ev c' ∧
        ∀ msg ∈ ev.submitted?, 128 + msg.payload.length ≤ 65536) (init 3)
      (largeRequests 32 ++ [.timeout 1, .timeout 2] ++ [.deliver 64] ++ process 0 1
        ++ [.deliver 65, .start 0])
      (P := fun c => (∃ c' ∈ c.step (.tick 0 {}), Unbroken c (.tick 0 {}) c')
        ∧ (∃ im ∈ (c.nodes 0).handles?, (builtVote? (c.state 0) im.message).isSome = true)
        ∧ (c.state 0).getPrimaryIdForView (c.state 0).view = some 1
        ∧ maxPayload < 4 + logSize (c.state 0).log
        ∧ 4 + logSize (c.state 0).log < 2 ^ 32 - headerSize) (by decide +kernel)
  obtain ⟨d, hd⟩ := Option.isSome_iff_exists.mp hvote
  obtain ⟨-, -, rfl⟩ := builtVote?_eq_some hd
  have hlt : 0 < c.size := by
    rw [size_run run]
    decide
  obtain ⟨c'', hstep', hsent⟩ := exists_sent_vote (static_run run) hlt hhandles hd hp (by decide)
  obtain rfl := Option.some.inj (hstep.symm.trans hstep')
  have run' := run.tail hstep ⟨hok, fun msg hmsg => by cases hmsg⟩
  refine ⟨c', _, run', hsent, rfl, ?_⟩
  intro H
  have hheader := ((bounded_run run').sent 0 _ hsent).header (by rfl)
  exact handleRawData_oversize hheader (by rw [length_doViewChange]; exact hmax)
    (by rw [length_doViewChange]; exact hlen)

end Cluster

end VsrKv
