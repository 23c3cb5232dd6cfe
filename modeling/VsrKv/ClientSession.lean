import VsrKv.Availability
import VsrKv.Bounds
import VsrKv.KeyValue
import VsrKv.ProtocolHandler

/-!
# The client at its prompt

`client_main` from the line that is typed to the message that is sent.
`handle_user_input` reads a command and its words off the line, and
`send_message` numbers the message and tries the replicas one after the
other, from the one that was connected last.

A session sends each of its messages under a number of its own, to the
first replica it finds connected (`send_fails_over`, `session_requests`);
and what the primary executes is what was typed, although the line is
taken apart, put together and taken apart again on the way
(`typed_command_executed`). What is printed is modelled by what it says.
-/

namespace VsrKv

open Cluster Replica
open Words (isSpace)

/-! ## Sending -/

/-- `self_client_id`. -/
def selfClientId : UInt128 := { high := 0xDEADBEEF, low := 0xCAFEF00D }

structure ClientMain where
  currentTargetReplicaId : Nat := 0
  nextRequestNumber : Nat := 1

/-- What the client does: send to a replica, or print. -/
inductive ClientEffect where
  | send (id : Nat) (msg : VsrMessage)
  | failover (id : Nat)
  | allDown
  | help
  | status (target : Nat) (connected : List Bool)
  | usageGet
  | usageSet
  | unknownCommand (command : Bytes)
deriving DecidableEq

/-- Which replicas the client finds connected, by the attempt that looks. -/
abbrev Connected : Type := Nat → Nat → Bool

namespace ClientMain

def advanceToNextReplica (target totalReplicas : Nat) : Nat := (target + 1) % totalReplicas

/-- The loop of `send_message`, with the attempts left and made, and the target. -/
def sendLoop (connected : Connected) (totalReplicas : Nat) (msg : VsrMessage) :
    Nat → Nat → Nat → Nat × List ClientEffect
  | 0, _, target => (target, [.allDown])
  | left + 1, attempt, target =>
      if connected attempt target then (target, [.send target msg])
      else
        let (last, effs) := sendLoop connected totalReplicas msg left (attempt + 1)
          (advanceToNextReplica target totalReplicas)
        (last, .failover target :: effs)

def sendMessage (connected : Connected) (totalReplicas : Nat) (c : ClientMain) (msg : VsrMessage) :
    ClientMain × List ClientEffect :=
  let msg := { msg with header :=
    { msg.header with client := selfClientId, request := c.nextRequestNumber } }
  let (target, effs) := sendLoop connected totalReplicas msg totalReplicas 0
    c.currentTargetReplicaId
  ({ currentTargetReplicaId := target, nextRequestNumber := u32 (c.nextRequestNumber + 1) }, effs)

/-! ## Commands -/

/-- `"exit"` and `"quit"`. -/
def exitCommand : Bytes := [101, 120, 105, 116]
def quitCommand : Bytes := [113, 117, 105, 116]

/-- `"help"`, `"status"`, `"ping"`, `"get"` and `"set"`. -/
def helpCommand : Bytes := [104, 101, 108, 112]
def statusCommand : Bytes := [115, 116, 97, 116, 117, 115]
def pingCommand : Bytes := [112, 105, 110, 103]
def getCommand : Bytes := [103, 101, 116]
def setCommand : Bytes := [115, 101, 116]

/-- A turn of the loop of `handle_user_input`, unless it ends there. Extraction fails
where there is no word left. -/
def handleLine (connected : Connected) (totalReplicas : Nat) (c : ClientMain) (line : Bytes) :
    Option (ClientMain × List ClientEffect) :=
  if line = exitCommand ∨ line = quitCommand then none
  else
    let (command, stream) := nextToken line
    if command = [] then some (c, [])
    else if command = helpCommand then some (c, [.help])
    else if command = statusCommand then
      some (c, [.status c.currentTargetReplicaId ((List.range totalReplicas).map (connected 0))])
    else if command = pingCommand then
      some (c.sendMessage connected totalReplicas { header := { command := .ping } })
    else if command = getCommand then
      let (key, _) := nextToken stream
      if key = [] then some (c, [.usageGet])
      else
        some (c.sendMessage connected totalReplicas
          { header := { command := .request, operation := .get }, payload := key })
    else if command = setCommand then
      let (key, stream) := nextToken stream
      let (value, _) := nextToken stream
      if key = [] ∨ value = [] then some (c, [.usageSet])
      else
        some (c.sendMessage connected totalReplicas
          { header := { command := .request, operation := .set }
            payload := key ++ [32] ++ value })
    else some (c, [.unknownCommand command])

/-- `handle_user_input` on the lines typed, up to the end of the input. -/
def handleUserInput (totalReplicas : Nat) :
    ClientMain → List (Bytes × Connected) → List ClientEffect
  | _, [] => []
  | c, (line, connected) :: lines =>
      match c.handleLine connected totalReplicas line with
      | none => []
      | some (c', effs) => effs ++ handleUserInput totalReplicas c' lines

/-! ## Failover -/

variable {connected : Connected} {n : Nat} {c : ClientMain} {msg : VsrMessage}

/-- What the loop does if the attempt `a` is the first to find its target connected, or
none is. -/
theorem sendLoop_eq (left attempt target : Nat) (htarget : target < n) :
    (∃ a < left, connected (attempt + a) ((target + a) % n) = true
        ∧ (∀ b < a, connected (attempt + b) ((target + b) % n) = false)
        ∧ sendLoop connected n msg left attempt target = ((target + a) % n,
          (List.range a).map (fun b => .failover ((target + b) % n))
            ++ [.send ((target + a) % n) msg]))
      ∨ ((∀ b < left, connected (attempt + b) ((target + b) % n) = false)
        ∧ sendLoop connected n msg left attempt target = ((target + left) % n,
          (List.range left).map (fun b => .failover ((target + b) % n)) ++ [.allDown])) := by
  induction left generalizing attempt target with
  | zero => exact Or.inr ⟨by simp, by simp [sendLoop, Nat.mod_eq_of_lt htarget]⟩
  | succ left ih =>
      have hpos : 0 < n := by omega
      have hfirst : (target + 0) % n = target := Nat.mod_eq_of_lt htarget
      by_cases hconnected : connected attempt target = true
      · refine Or.inl ⟨0, Nat.succ_pos _, by rwa [hfirst], by simp, ?_⟩
        rw [sendLoop, if_pos hconnected, hfirst]
        rfl
      · have hnot : connected attempt target = false := Bool.eq_false_of_not_eq_true hconnected
        -- the rest of the loop begins one attempt and one replica further on
        have hnext : ∀ b, (advanceToNextReplica target n + b) % n = (target + (b + 1)) % n := by
          intro b
          rw [advanceToNextReplica, Nat.mod_add_mod, Nat.add_assoc, Nat.add_comm 1]
        have hbefore : ∀ a,
            (∀ b < a, connected (attempt + 1 + b) ((target + (b + 1)) % n) = false) →
            ∀ b < a + 1, connected (attempt + b) ((target + b) % n) = false := by
          intro a hrest b hb
          cases b with
          | zero => rwa [hfirst]
          | succ b =>
              rw [← Nat.add_assoc, Nat.add_right_comm]
              exact hrest b (by omega)
        have hlist : ∀ a,
            (List.range (a + 1)).map (fun b => ClientEffect.failover ((target + b) % n))
            = .failover target
              :: (List.range a).map (fun b => ClientEffect.failover ((target + (b + 1)) % n)) := by
          intro a
          rw [List.range_succ_eq_map, List.map_cons, List.map_map, hfirst]
          rfl
        rw [sendLoop, if_neg hconnected]
        rcases ih (attempt + 1) (advanceToNextReplica target n) (Nat.mod_lt _ hpos) with
          ⟨a, ha, hconn, hrest, heq⟩ | ⟨hrest, heq⟩
        · simp only [hnext] at hconn hrest heq
          refine Or.inl ⟨a + 1, by omega, ?_, hbefore a hrest, ?_⟩
          · rw [← Nat.add_assoc, Nat.add_right_comm]
            exact hconn
          · rw [heq, hlist]
            rfl
        · simp only [hnext] at hrest heq
          refine Or.inr ⟨hbefore left hrest, ?_⟩
          rw [heq, hlist]
          rfl

/-- The message as it is sent: it carries the client's id and the next number. -/
def numbered (c : ClientMain) (msg : VsrMessage) : VsrMessage :=
  { msg with header :=
    { msg.header with client := selfClientId, request := c.nextRequestNumber } }

/-- A message goes to the first replica, going around from the current target, that is
found connected when it is tried, and this becomes the target. If there is none, the
target is what it was. The number is used up either way. -/
theorem send_fails_over (c : ClientMain) (connected : Connected) (msg : VsrMessage)
    (htarget : c.currentTargetReplicaId < n) :
    let target := fun a => (c.currentTargetReplicaId + a) % n
    let failovers := fun a => (List.range a).map fun b => ClientEffect.failover (target b)
    let next := u32 (c.nextRequestNumber + 1)
    (∃ a < n, connected a (target a) = true ∧ (∀ b < a, connected b (target b) = false)
        ∧ c.sendMessage connected n msg
          = (⟨target a, next⟩, failovers a ++ [.send (target a) (c.numbered msg)]))
      ∨ ((∀ b < n, connected b (target b) = false)
        ∧ c.sendMessage connected n msg
          = (⟨c.currentTargetReplicaId, next⟩, failovers n ++ [.allDown])) := by
  intro target failovers next
  have hloop := @sendLoop_eq connected n (c.numbered msg) n 0 _ htarget
  simp only [Nat.zero_add] at hloop
  rcases hloop with ⟨a, ha, hconn, hrest, heq⟩ | ⟨hrest, heq⟩
  · refine Or.inl ⟨a, ha, hconn, hrest, ?_⟩
    rw [sendMessage, ← numbered, heq]
  · refine Or.inr ⟨hrest, ?_⟩
    rw [Nat.add_mod_right, Nat.mod_eq_of_lt htarget] at heq
    rw [sendMessage, ← numbered, heq]

/-- Replicas 0 and 1 are down, and the client began with 1. -/
theorem send_fails_over_to_two :
    let connected : Connected := fun _ id => id == 2
    ∃ a < 3, connected a ((1 + a) % 3) = true
      ∧ (sendMessage connected 3 ⟨1, 5⟩ {}).1.currentTargetReplicaId = (1 + a) % 3 := by
  intro connected
  rcases send_fails_over ⟨1, 5⟩ connected {} (show 1 < 3 by decide) with
    ⟨a, ha, hconn, -, heq⟩ | ⟨hrest, -⟩
  · exact ⟨a, ha, hconn, by rw [heq]⟩
  · exact absurd (hrest 1 (by decide)) (by decide)

/-! ## What is typed and what is sent -/

/-- The messages that `send_message` is given for a line. -/
inductive Typed (line : Bytes) : VsrMessage → Prop where
  | ping (hcommand : Words.word isSpace 0 line = pingCommand) :
      Typed line { header := { command := .ping } }
  | get (hcommand : Words.word isSpace 0 line = getCommand)
      (hkey : Words.word isSpace 1 line ≠ []) :
      Typed line
        { header := { command := .request, operation := .get }
          payload := Words.word isSpace 1 line }
  | set (hcommand : Words.word isSpace 0 line = setCommand)
      (hkey : Words.word isSpace 1 line ≠ []) (hvalue : Words.word isSpace 2 line ≠ []) :
      Typed line
        { header := { command := .request, operation := .set }
          payload := Words.word isSpace 1 line ++ [32] ++ Words.word isSpace 2 line }

theorem words_of_line (line : Bytes) :
    (nextToken line).1 = Words.word isSpace 0 line
      ∧ (nextToken (nextToken line).2).1 = Words.word isSpace 1 line
      ∧ (nextToken (nextToken (nextToken line).2).2).1 = Words.word isSpace 2 line :=
  ⟨(nextToken_eq line).1, (nextToken_eq line).2,
    (nextToken_eq (nextToken line).2).2.trans (Words.word_succ 1 line).symm⟩

/-- The message that an effect sends, and to whom. -/
def sent? : ClientEffect → Option (Nat × VsrMessage)
  | .send id msg => some (id, msg)
  | _ => none

theorem handleLine_cases {c c' : ClientMain} {line : Bytes} {effs : List ClientEffect}
    (h : c.handleLine connected n line = some (c', effs)) :
    (c' = c ∧ effs.filterMap sent? = [])
      ∨ ∃ msg, Typed line msg ∧ c.sendMessage connected n msg = (c', effs) := by
  obtain ⟨h₀, h₁, h₂⟩ := words_of_line line
  rw [handleLine] at h
  simp only [h₀, h₁, h₂] at h
  split at h
  · cases h
  · split at h
    · obtain ⟨rfl, rfl⟩ := Prod.mk.inj (Option.some.inj h)
      exact Or.inl ⟨rfl, rfl⟩
    · split at h
      · obtain ⟨rfl, rfl⟩ := Prod.mk.inj (Option.some.inj h)
        exact Or.inl ⟨rfl, rfl⟩
      · split at h
        · obtain ⟨rfl, rfl⟩ := Prod.mk.inj (Option.some.inj h)
          exact Or.inl ⟨rfl, rfl⟩
        · split at h
          · rename_i hcommand
            exact Or.inr ⟨_, .ping hcommand, Option.some.inj h⟩
          · split at h
            · rename_i hcommand
              split at h
              · obtain ⟨rfl, rfl⟩ := Prod.mk.inj (Option.some.inj h)
                exact Or.inl ⟨rfl, rfl⟩
              · rename_i hkey
                exact Or.inr ⟨_, .get hcommand hkey, Option.some.inj h⟩
            · split at h
              · rename_i hcommand
                split at h
                · obtain ⟨rfl, rfl⟩ := Prod.mk.inj (Option.some.inj h)
                  exact Or.inl ⟨rfl, rfl⟩
                · rename_i hwords
                  obtain ⟨hkey, hvalue⟩ := not_or.mp hwords
                  exact Or.inr ⟨_, .set hcommand hkey hvalue, Option.some.inj h⟩
              · obtain ⟨rfl, rfl⟩ := Prod.mk.inj (Option.some.inj h)
                exact Or.inl ⟨rfl, rfl⟩

/-- The words fit the line, with a separator after the command. -/
theorem length_words_le {line : Bytes} {k : Nat} (hk : (Words.word isSpace 0 line).length = k) :
    k + (Words.word isSpace 1 line).length + (Words.word isSpace 2 line).length
      ≤ line.length := by
  obtain ⟨h₀, h₁, h₂⟩ := words_of_line line
  have hread : ∀ text : Bytes,
      (nextToken text).1.length + (nextToken text).2.length ≤ text.length :=
    fun text => Words.length_nextWord_add text
  have hfirst := hread line
  have hsecond := hread (nextToken line).2
  have hthird := hread (nextToken (nextToken line).2).2
  rw [← h₀] at hk
  rw [← h₁, ← h₂]
  omega

theorem Typed.payload_le {line : Bytes} {msg : VsrMessage} (h : Typed line msg) :
    msg.payload.length ≤ line.length := by
  cases h with
  | ping => exact Nat.zero_le _
  | get hcommand =>
      have := length_words_le (congrArg List.length hcommand)
      simp only [getCommand, List.length_cons, List.length_nil] at this ⊢
      omega
  | set hcommand =>
      have := length_words_le (congrArg List.length hcommand)
      simp only [setCommand, List.length_append, List.length_cons, List.length_nil] at this ⊢
      omega

/-! ## A session -/

/-- What is sent is what was typed, under the next number, to a replica. -/
theorem sends_of_sendMessage {c' : ClientMain} {effs : List ClientEffect}
    (htarget : c.currentTargetReplicaId < n) (h : c.sendMessage connected n msg = (c', effs)) :
    c'.currentTargetReplicaId < n ∧ c'.nextRequestNumber = u32 (c.nextRequestNumber + 1)
      ∧ (effs.filterMap sent? = []
        ∨ ∃ id < n, effs.filterMap sent? = [(id, c.numbered msg)]) := by
  have hpos : 0 < n := by omega
  -- a failover sends nothing
  have hnone : ∀ (target : Nat → Nat) (l : List Nat),
      (l.map fun b => ClientEffect.failover (target b)).filterMap sent? = [] := by
    intro target l
    rw [List.filterMap_map, List.filterMap_eq_nil_iff]
    intro b _
    rfl
  have hloop := @sendLoop_eq connected n (c.numbered msg) n 0 _ htarget
  rw [sendMessage, ← numbered] at h
  rcases hloop with ⟨a, -, -, -, heq⟩ | ⟨-, heq⟩
  · rw [heq] at h
    obtain ⟨rfl, rfl⟩ := Prod.mk.inj h
    refine ⟨Nat.mod_lt _ hpos, rfl, Or.inr ⟨(c.currentTargetReplicaId + a) % n,
      Nat.mod_lt _ hpos, ?_⟩⟩
    rw [List.filterMap_append, hnone]
    rfl
  · rw [heq] at h
    obtain ⟨rfl, rfl⟩ := Prod.mk.inj h
    refine ⟨Nat.mod_lt _ hpos, rfl, Or.inl ?_⟩
    rw [List.filterMap_append, hnone]
    rfl

theorem isClientMessage_numbered {line : Bytes} (h : Typed line msg)
    (hline : 128 + line.length < 2 ^ 32) (hnumber : c.nextRequestNumber < 2 ^ 32) :
    isClientMessage (c.numbered msg) = true := by
  have hpayload := h.payload_le
  have hfits : 128 + msg.payload.length < 2 ^ 32 := by omega
  cases h <;> simp_all [isClientMessage, numbered]

/-- What may be typed: no line is longer than a message can carry. -/
def Short (lines : List (Bytes × Connected)) : Prop := ∀ l ∈ lines, 128 + l.1.length < 2 ^ 32

/-- The messages of a session, as its lines are taken one after the other. -/
inductive Session (n : Nat) :
    ClientMain → List (Bytes × Connected) → List (Nat × VsrMessage) → Prop where
  | closed (c : ClientMain) (lines : List (Bytes × Connected)) : Session n c lines []
  | silent {c c' : ClientMain} {l : Bytes × Connected} {lines : List (Bytes × Connected)}
      {sent : List (Nat × VsrMessage)}
      (hnumber : c'.nextRequestNumber = c.nextRequestNumber
        ∨ c'.nextRequestNumber = u32 (c.nextRequestNumber + 1))
      (hrest : Session n c' lines sent) : Session n c (l :: lines) sent
  | sends {c c' : ClientMain} {l : Bytes × Connected} {lines : List (Bytes × Connected)}
      {sent : List (Nat × VsrMessage)} (id : Nat) (msg : VsrMessage)
      (htyped : Typed l.1 msg) (hid : id < n)
      (hnumber : c'.nextRequestNumber = u32 (c.nextRequestNumber + 1))
      (hrest : Session n c' lines sent) : Session n c (l :: lines) ((id, c.numbered msg) :: sent)

theorem session_handleUserInput (htarget : c.currentTargetReplicaId < n)
    (lines : List (Bytes × Connected)) :
    Session n c lines ((handleUserInput n c lines).filterMap sent?) := by
  induction lines generalizing c with
  | nil => exact .closed _ _
  | cons l lines ih =>
      obtain ⟨line, connected⟩ := l
      rw [handleUserInput]
      cases hturn : c.handleLine connected n line with
      | none => exact .closed _ _
      | some p =>
          obtain ⟨c', effs⟩ := p
          simp only [List.filterMap_append]
          rcases handleLine_cases hturn with ⟨rfl, hnone⟩ | ⟨msg, htyped, hsend⟩
          · rw [hnone]
            exact .silent (Or.inl rfl) (ih htarget)
          · obtain ⟨htarget', hnumber, hnone | ⟨id, hid, hone⟩⟩ :=
              sends_of_sendMessage htarget hsend
            · rw [hnone]
              exact .silent (Or.inr hnumber) (ih htarget')
            · rw [hone]
              exact .sends id msg htyped hid hnumber (ih htarget')

theorem Session.requests {lines : List (Bytes × Connected)} {sent : List (Nat × VsrMessage)}
    (h : Session n c lines sent) (hlines : Short lines)
    (hcount : c.nextRequestNumber + lines.length < 2 ^ 32) :
    (∀ s ∈ sent, s.1 < n ∧ isClientMessage s.2 = true ∧ s.2.header.client = selfClientId
        ∧ c.nextRequestNumber ≤ s.2.header.request)
      ∧ sent.Pairwise (fun s t => s.2.header.request < t.2.header.request) := by
  induction h with
  | closed => exact ⟨by simp, .nil⟩
  | silent hnumber _ ih =>
      obtain ⟨-, hlines⟩ := List.forall_mem_cons.mp hlines
      rw [List.length_cons] at hcount
      rw [u32_eq (by omega)] at hnumber
      obtain ⟨hsent, horder⟩ := ih hlines (by omega)
      refine ⟨fun s hs => ?_, horder⟩
      obtain ⟨hid, hclient, hself, hle⟩ := hsent s hs
      exact ⟨hid, hclient, hself, by omega⟩
  | sends id msg htyped hid hnumber _ ih =>
      obtain ⟨hline, hlines⟩ := List.forall_mem_cons.mp hlines
      rw [List.length_cons] at hcount
      rw [u32_eq (by omega)] at hnumber
      obtain ⟨hsent, horder⟩ := ih hlines (by omega)
      refine ⟨List.forall_mem_cons.mpr ⟨⟨hid, ?_, rfl, Nat.le_refl _⟩, fun s hs => ?_⟩,
        List.pairwise_cons.mpr ⟨fun s hs => ?_, horder⟩⟩
      · exact isClientMessage_numbered htyped hline (by omega)
      · obtain ⟨hid, hclient, hself, hle⟩ := hsent s hs
        exact ⟨hid, hclient, hself, by omega⟩
      · have hle := (hsent s hs).2.2.2
        show _ < s.2.header.request
        simp only [numbered]
        omega

/-- Requests of one client in the order of their numbers are new ones, each when its
turn comes. -/
theorem allNew_of_pairwise (client : UInt128) (fd : Nat) {reqs : List VsrMessage}
    {last : UInt128 → Nat}
    (hreqs : ∀ m ∈ reqs, isClientMessage m = true ∧ m.header.command = .request
      ∧ m.header.client = client ∧ last client < m.header.request)
    (horder : reqs.Pairwise fun m m' => m.header.request < m'.header.request) :
    AllNew last (reqs.map fun m => (fd, m)) := by
  induction reqs generalizing last with
  | nil => trivial
  | cons m reqs ih =>
      obtain ⟨⟨hmsg, hcmd, hclient, hnew⟩, hreqs⟩ := List.forall_mem_cons.mp hreqs
      obtain ⟨hfirst, horder⟩ := List.pairwise_cons.mp horder
      refine ⟨hmsg, hcmd, hclient ▸ hnew, ih (fun m' hm' => ?_) horder⟩
      obtain ⟨hmsg', hcmd', hclient', -⟩ := hreqs m' hm'
      refine ⟨hmsg', hcmd', hclient', ?_⟩
      rw [if_pos hclient.symm]
      exact hfirst m' hm'

/-- The requests that a session sends to a replica. -/
def requestsTo (id : Nat) (sent : List (Nat × VsrMessage)) : List VsrMessage :=
  (sent.filter fun s => s.1 = id ∧ s.2.header.command = .request).map (·.2)

/-- Until the numbers run out, a session sends what a client may send, to replicas of the
cluster, under numbers that go up. So what it asks of one of them, and whichever of it
arrives, is a list of new requests. -/
theorem session_requests (n : Nat) (hpos : 0 < n) (lines : List (Bytes × Connected))
    (hlines : Short lines) (hcount : lines.length + 1 < 2 ^ 32) :
    let sent := (handleUserInput n {} lines).filterMap sent?
    (∀ s ∈ sent, s.1 < n ∧ isClientMessage s.2 = true ∧ s.2.header.client = selfClientId)
      ∧ sent.Pairwise (fun s t => s.2.header.request < t.2.header.request)
      ∧ ∀ id fd, ∀ reqs : List VsrMessage, reqs.Sublist (requestsTo id sent) →
        AllNew (fun _ => 0) (reqs.map fun m => (fd, m)) := by
  intro sent
  have hsession : Session n {} lines sent := session_handleUserInput hpos lines
  have hone : ({} : ClientMain).nextRequestNumber = 1 := rfl
  obtain ⟨hsent, horder⟩ := hsession.requests hlines (by omega)
  refine ⟨fun s hs => ?_, horder, fun id fd reqs hsub => ?_⟩
  · obtain ⟨hid, hclient, hself, -⟩ := hsent s hs
    exact ⟨hid, hclient, hself⟩
  · refine allNew_of_pairwise selfClientId fd (fun m hm => ?_) (.sublist hsub ?_)
    · obtain ⟨s, hs, rfl⟩ := List.mem_map.mp (hsub.subset hm)
      obtain ⟨hmem, hasks⟩ := List.mem_filter.mp hs
      obtain ⟨-, hclient, hself, hle⟩ := hsent s hmem
      exact ⟨hclient, (of_decide_eq_true hasks).2, hself, by rw [hone] at hle; omega⟩
    · exact List.pairwise_map.mpr (horder.sublist List.filter_sublist)

/-- A ping, a command that is none, a key that is set, the exit and what is not read. -/
def fourLines : List (Bytes × Connected) :=
  [(pingCommand, fun _ id => id == 1), ([97], fun _ _ => true),
    (setCommand ++ [32, 97, 32, 98], fun _ _ => true), (quitCommand, fun _ _ => true),
    (pingCommand, fun _ _ => true)]

theorem session_requests_of_two :
    let sent := (handleUserInput 3 {} fourLines).filterMap sent?
    sent.map (fun s => (s.1, s.2.header.request)) = [(1, 1), (1, 2)]
      ∧ sent.Pairwise (fun s t => s.2.header.request < t.2.header.request) :=
  ⟨by decide, (session_requests 3 (by decide) fourLines (by simp [Short, fourLines,
    pingCommand, setCommand, quitCommand]) (by decide)).2.1⟩

/-! ## What is typed and what is executed -/

/-- What a line asks for: the map it leaves, and what the client is told. -/
def asked (line : Bytes) (m : StdMap Bytes Bytes) : StdMap Bytes Bytes × Bytes :=
  let key := Words.word isSpace 1 line
  let value := Words.word isSpace 2 line
  if Words.word isSpace 0 line = setCommand then (m.insert key value, setResult key value)
  else (m, m[key]?.getD notFound)

/-- A word is read back, and so are two with a blank between them. -/
theorem nextToken_word {key : Bytes} (hne : key ≠ []) (hkey : ∀ b ∈ key, isSpace b = false) :
    (nextToken key).1 = key := by
  rw [(nextToken_eq key).1, Words.word, Words.words_singleton hne hkey]
  rfl

theorem nextToken_words {key value : Bytes} (hne : key ≠ []) (hkey : ∀ b ∈ key, isSpace b = false)
    (hne' : value ≠ []) (hvalue : ∀ b ∈ value, isSpace b = false) :
    (nextToken (key ++ [32] ++ value)).1 = key
      ∧ (nextToken (nextToken (key ++ [32] ++ value)).2).1 = value := by
  have hwords : Words.words isSpace (key ++ [32] ++ value) = [key, value] := by
    rw [List.append_assoc, List.singleton_append,
      Words.words_append_cons hne hkey (by decide), Words.words_singleton hne' hvalue]
  obtain ⟨hfirst, hsecond⟩ := nextToken_eq (key ++ [32] ++ value)
  rw [hfirst, hsecond, Words.word, Words.word, hwords]
  exact ⟨rfl, rfl⟩

theorem Typed.applyOperation {line : Bytes} (h : Typed line msg)
    (hrequest : msg.header.command = .request) {e : LogEntry}
    (hop : e.opType = msg.header.operation) (hpayload : e.payload = msg.payload)
    (m : StdMap Bytes Bytes) : VsrKv.applyOperation m e = asked line m := by
  cases h with
  | ping => cases hrequest
  | get hcommand hkey =>
      have hnot : ¬Words.word isSpace 0 line = setCommand := by
        rw [hcommand]
        decide
      have hread := nextToken_word hkey Words.not_sep_of_mem_word
      simp only [VsrKv.applyOperation, hop, hpayload, hread, asked, if_neg hnot]
  | set hcommand hkey hvalue =>
      obtain ⟨hfirst, hsecond⟩ := nextToken_words hkey Words.not_sep_of_mem_word
        hvalue Words.not_sep_of_mem_word
      simp only [VsrKv.applyOperation, hop, hpayload, hfirst, hsecond, asked, if_pos hcommand]

theorem inRange_numbered {line : Bytes} (h : Typed line msg)
    (hnumber : c.nextRequestNumber < 2 ^ 32) : (c.numbered msg).header.InRange := by
  cases h <;> exact .of_unset ⟨rfl, rfl, rfl, rfl, rfl⟩ hnumber (Nat.two_pow_pos 32)
    (Nat.two_pow_pos 64) (Nat.two_pow_pos 64) (Nat.two_pow_pos 8)

/-- What was typed at some line of the session, as the replica reads it. -/
theorem Session.read (H : Bytes → UInt128) {lines : List (Bytes × Connected)}
    {sent : List (Nat × VsrMessage)} (h : Session n c lines sent) (hlines : Short lines)
    (hnumber : c.nextRequestNumber < 2 ^ 32) (s : Nat × VsrMessage) (hs : s ∈ sent) :
    ∃ l ∈ lines, ∃ msg, Typed l.1 msg ∧ ∃ received : VsrMessage,
      VsrMessage.deserialize H (s.2.serialize H) = some received
        ∧ received.header.command = msg.header.command
        ∧ received.header.operation = msg.header.operation ∧ received.payload = msg.payload := by
  have hfits : ∀ k, u32 k < 2 ^ 32 := fun k => Nat.mod_lt k (by norm_num)
  induction h with
  | closed => cases hs
  | silent hnext _ ih =>
      obtain ⟨-, hlines⟩ := List.forall_mem_cons.mp hlines
      have hnumber' := hnext.elim (fun h => h ▸ hnumber) (fun h => h ▸ hfits _)
      obtain ⟨l, hl, hread⟩ := ih hlines hnumber' hs
      exact ⟨l, List.mem_cons_of_mem _ hl, hread⟩
  | sends id msg htyped _ hnext _ ih =>
      obtain ⟨hline, hlines⟩ := List.forall_mem_cons.mp hlines
      rcases List.mem_cons.mp hs with rfl | hs
      · have hpayload := htyped.payload_le
        have hround := VsrMessage.deserialize_serialize (H := H) (inRange_numbered htyped hnumber)
          (show msg.payload.length < 2 ^ 32 - headerSize by rw [headerSize]; omega)
        exact ⟨_, List.mem_cons_self, msg, htyped, _, hround, rfl, rfl, rfl⟩
      · obtain ⟨l, hl, hread⟩ := ih hlines (hnext ▸ hfits _) hs
        exact ⟨l, List.mem_cons_of_mem _ hl, hread⟩

/-- Each message of a session comes from a line that was typed; the replica decodes it, and
if it is a request, executes what the line asks for, whatever the map and the entry's view. -/
theorem typed_command_executed (H : Bytes → UInt128) (n : Nat) (hpos : 0 < n)
    (lines : List (Bytes × Connected)) (hlines : Short lines) (id : Nat) (msg : VsrMessage)
    (hsent : .send id msg ∈ handleUserInput n {} lines) :
    ∃ l ∈ lines, ∃ received, VsrMessage.deserialize H (msg.serialize H) = some received
      ∧ (received.header.command = .request →
        ∀ v acks m, VsrKv.applyOperation m (entryOf v received acks) = asked l.1 m) := by
  have hsession : Session n {} lines _ := session_handleUserInput hpos lines
  obtain ⟨l, hl, typed, htyped, received, hround, hcmd, hop, hpayload⟩ :=
    hsession.read H hlines (by norm_num) (id, msg) (List.mem_filterMap.mpr ⟨_, hsent, rfl⟩)
  refine ⟨l, hl, received, hround, fun hrequest v acks m => ?_⟩
  exact htyped.applyOperation (hcmd ▸ hrequest) hop hpayload m

/-- `set a b`, sent to replica 1, and executed with an empty map. -/
theorem typed_command_executed_set :
    let msg : VsrMessage :=
      { header := { command := .request, operation := .set, client := selfClientId, request := 2 }
        payload := [97, 32, 98] }
    ∃ l ∈ fourLines, ∃ received,
      VsrMessage.deserialize (fun _ => {}) (msg.serialize fun _ => {}) = some received
      ∧ (received.header.command = .request → ∀ v acks m,
        VsrKv.applyOperation m (entryOf v received acks) = asked l.1 m) := by
  intro msg
  exact typed_command_executed (fun _ => {}) 3 (by decide) fourLines (by simp [Short, fourLines,
    pingCommand, setCommand, quitCommand]) 1 msg (by decide)

end ClientMain

end VsrKv
