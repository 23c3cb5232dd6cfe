import VsrKv.Refinement

/-!
# Normal operation, as the protocol sees it

One lemma for each thing a replica does in normal operation. Logging a
request is the protocol's `propose` and logging a `Prepare` its `accept`;
an acknowledgement that arrives and a commit number that is learned are
nothing to the protocol, which has the promise on record already.

The first two sections are what the lemmas about view changes and
recovery use as well.
-/

namespace VsrKv

open Replica Viewstamped

/-! ## Reading the relation -/

section

variable {f i : Nat} {c : Cluster} {a : Abs} (h : Refines f c a)

include h

theorem Refines.lt (hi : i < c.size) : i < 2 * f + 1 := h.size ▸ hi

theorem Refines.id_eq (hi : i < c.size) (hsmall : 2 * f + 1 ≤ 2 ^ 8) :
    u8 (c.state i).id = i := by
  rw [h.static.id]
  exact u8_eq ((h.lt hi).trans_le hsmall)

theorem Refines.primary_of (hprimary : (c.state i).isPrimary = true) :
    i = (config f).primary (c.state i).view := by
  rw [h.static.isPrimary h.odd, decide_eq_true_iff, h.size] at hprimary
  exact hprimary

theorem Refines.primary_of_view {v p : Nat}
    (hp : (c.state i).getPrimaryIdForView v = some p) : p = (config f).primary v := by
  rw [h.static.getPrimaryIdForView (by have := h.size; omega)] at hp
  rw [← Option.some.inj hp, h.size]
  rfl

/-- The log of a replica is part of some view's log. -/
theorem Refines.log_le (hi : i < c.size) : ∃ v, (a.node i).log <+: a.viewLog v := by
  have hmem := mem_members.mpr (h.lt hi)
  by_cases hst : (a.node i).status = .changing
  · obtain ⟨v, -, -, -, -, -, hle⟩ := h.inv.vote i _ _ (h.inv.changing i hmem hst)
    exact ⟨v, hle⟩
  · obtain ⟨-, -, -, hle⟩ := h.inv.active i hmem hst
    exact ⟨_, hle⟩

/-- A list that is part of some view's log can be written out. -/
theorem Refines.inRange_of {l : List LogEntry} {log : Log} {op v : Nat}
    (hrep : Represents log op l) (hle : l <+: a.viewLog v) : LogInRange log :=
  hrep.inRange (hle.length_le.trans_lt (h.length v)) fun e he =>
    h.entries v e (hle.subset he)

theorem Refines.logInRange (hi : i < c.size) : LogInRange (c.state i).log := by
  obtain ⟨v, hle⟩ := h.log_le hi
  exact h.inRange_of (h.nodes i hi).log hle

theorem Refines.head {im : InboundMessage} {rest : List InboundMessage}
    (hqueue : c.queue i = im :: rest) :
    isClientMessage im.message = true ∨ ∃ k, c.Sent k im.message ∧ Meaning f a k im.message := by
  have hmem : im ∈ c.pend i := List.mem_append_right _ (by rw [hqueue]; simp)
  exact (h.mail i im hmem).imp_right (Exists.imp fun k hk => ⟨hk, h.sent k _ hk⟩)

/-- A message no client sends has a meaning. -/
theorem Refines.head_meaning {im : InboundMessage} {rest : List InboundMessage}
    (hqueue : c.queue i = im :: rest) (hrequest : im.message.header.command ≠ .request)
    (hping : im.message.header.command ≠ .ping) :
    ∃ k, c.Sent k im.message ∧ Meaning f a k im.message := by
  rcases h.head hqueue with hclient | hk
  · simp only [isClientMessage, Bool.and_eq_true, Bool.or_eq_true, beq_iff_eq] at hclient
    exact absurd hclient.1.1 (by simp [hrequest, hping])
  · exact hk

/-- The protocol does not move. -/
theorem Refines.stutter {s' : ReplicaState} {effs : List Effect} (htracks : Tracks f a i s')
    (hsent : ∀ eff ∈ effs, ∀ m, eff.message? = some m → Meaning f a i m)
    (hexec : ∀ v n e res, Effect.executed v n e res ∈ effs → Performed f a v n e) :
    Outcome f c a i s' effs a :=
  ⟨Or.inl rfl, fun _ _ => rfl, htracks, hsent, hexec, fun _ _ _ _ => Or.inl,
    fun _ _ => Or.inl, h.length⟩

end

/-! ## Execution -/

/-- What a replica in normal operation emits while it executes. -/
theorem Tracks.effects {f i : Nat} {a : Abs} {s s' : ReplicaState} {effs : List Effect}
    (hinv : Inv (config f) a) (hi : i < 2 * f + 1) (htracks : Tracks f a i s)
    (hst : s.status = .normal) (hexec : Executed s s' effs) :
    (∀ eff ∈ effs, ∀ m, eff.message? = some m → Meaning f a i m)
      ∧ ∀ v n e res, Effect.executed v n e res ∈ effs → Performed f a v n e := by
  refine ⟨?_, ?_⟩
  · intro eff heff m hm
    cases hexec.effects eff heff with
    | executed n e res hn hlog => cases hm
    | reply conn e res =>
        cases hm
        exact ⟨hi, htracks.started hinv hi (by simp [hst])⟩
  · intro v n e res heff
    cases hexec.effects _ heff with
    | executed n e res hn hlog => exact htracks.performed hinv hi (by simp [hst]) hn hlog

theorem Known.raise {f : Nat} {a : Abs} {s : ReplicaState} {c : Nat}
    (h : Known f a s.view s.commit) (hc : Known f a s.view c) :
    Known f a (raiseTo s c).view (raiseTo s c).commit := by
  unfold raiseTo
  simp only []
  split
  · exact hc
  · exact h

theorem Tracks.raise {f i : Nat} {a : Abs} {s : ReplicaState} {commit : Nat}
    (h : Tracks f a i s) (hc : Known f a s.view commit) : Tracks f a i (raiseTo s commit) :=
  ⟨h.view, h.status, h.log, h.nonce, h.lastNormalView, h.commit.raise hc, h.acks, h.votes,
    h.responses⟩

/-- An entry is logged on both sides. -/
theorem Tracks.append {f i : Nat} {a a' : Abs} {s : ReplicaState} {e : LogEntry}
    (h : Tracks f a i s) (hext : Extends a a') (hst : s.status = .normal)
    (hop : u64 (s.op + 1) = s.op + 1)
    (hnode : a'.node i = { a.node i with log := (a.node i).log ++ [e.strip] })
    (hacks : ∀ q ∈ e.prepareOkAcks, q < 2 * f + 1 ∧ s.op + 1 ≤ a'.promise q s.view) :
    Tracks f a' i (appendEntry s e) := by
  refine .of_normal hst (by rw [hnode]; exact h.view) ?_ ?_ (h.commit.mono hext) ?_
  · rw [hnode]
    exact h.status.trans (by rw [hst]; rfl)
  · rw [hnode]
    simp only [appendEntry]
    rw [hop]
    exact h.log.insert_next e
  · intro n e' he q hq
    simp only [appendEntry] at he
    rw [hop, Std.ExtTreeMap.getElem?_insert] at he
    split at he
    · rename_i hn
      have hn : s.op + 1 = n := by simpa using hn
      have he := Option.some.inj he
      subst he hn
      exact hacks q hq
    · have hack := h.acks hst n e' he q hq
      exact ⟨hack.1, hack.2.trans (hext.promise _ _)⟩

/-- The commit number stops where it was or at an entry with a quorum of
acknowledgements. -/
theorem advanceLoop_cases (f : Nat) (log : Log) (k commit : Nat) :
    advanceLoop f log k commit = commit
      ∨ ∃ e, log[advanceLoop f log k commit]? = some e ∧ f + 1 ≤ e.prepareOkAcks.card := by
  induction k generalizing commit with
  | zero => exact Or.inl rfl
  | succ k ih =>
      rw [advanceLoop]
      split
      · exact Or.inl rfl
      · rename_i e he
        split
        · exact Or.inl rfl
        · rename_i hcard
          rcases ih (u64 (commit + 1)) with heq | hex
          · rw [heq]
            exact Or.inr ⟨e, he, by omega⟩
          · exact Or.inr hex

/-! ## Normal operation -/

section

variable {f i : Nat} {c : Cluster} {a : Abs} {im : InboundMessage} {rest : List InboundMessage}
  (h : Refines f c a) (hi : i < c.size)

include h hi

theorem Refines.op_lt : (c.state i).op < 2 ^ 64 := by
  obtain ⟨v, hle⟩ := h.log_le hi
  rw [(h.nodes i hi).log.op]
  exact hle.length_le.trans_lt (h.length v)

/-- The next op number, unless it wraps. -/
theorem Refines.u64_op (hne : u64 ((c.state i).op + 1) ≠ 0) :
    u64 ((c.state i).op + 1) = (c.state i).op + 1 := by
  have hlt := h.op_lt hi
  by_cases hwrap : (c.state i).op + 1 < 2 ^ 64
  · exact u64_eq hwrap
  · have heq : (c.state i).op + 1 = 2 ^ 64 := by omega
    rw [heq] at hne
    exact absurd rfl hne

theorem Refines.propose (hqueue : c.queue i = im :: rest)
    (hcmd : im.message.header.command = .request) (hst : (c.state i).status = .normal)
    (hprimary : (c.state i).isPrimary = true) (table : StdMap UInt128 ClientTableEntry)
    (hwrap : 0 ∉ (appendEntry { c.state i with clientTable := table }
      (entryOf (c.state i).view im.message {(c.state i).id})).log) :
    Outcome f c a i
      (appendEntry { c.state i with clientTable := table }
        (entryOf (c.state i).view im.message {(c.state i).id}))
      [.broadcast (prepareMessage { c.state i with op := u64 ((c.state i).op + 1) } im.message)]
      (a.propose i (entryOf (c.state i).view im.message ∅)) := by
  have htracks := h.nodes i hi
  have hmem := h.lt hi
  have hp := h.primary_of hprimary
  rw [← htracks.view] at hp
  have hast : (a.node i).status = .normal := by rw [htracks.status, hst]; rfl
  have hstep := Step.propose (C := config f) i (entryOf (c.state i).view im.message ∅) hast hp
  have hext := (hstep.extends h.inv).1
  have hleads := h.inv.leads hast hp
  have hlog : (a.viewLog (c.state i).view).length = (c.state i).op := by
    rw [htracks.log.op, hleads.2.2, htracks.view]
  have hop : u64 ((c.state i).op + 1) = (c.state i).op + 1 := by
    refine h.u64_op hi fun hzero => hwrap ?_
    simp only [appendEntry]
    rw [hzero]
    exact Std.ExtTreeMap.mem_insert_self
  have hlt : (c.state i).op + 1 < 2 ^ 64 := by
    have : u64 ((c.state i).op + 1) < 2 ^ 64 := Nat.mod_lt _ (by norm_num)
    omega
  have hnode : ((a.propose i (entryOf (c.state i).view im.message ∅)).node i)
      = { a.node i with log := (a.node i).log ++ [entryOf (c.state i).view im.message ∅] } := by
    simp [State.propose, State.set]
  have hviewLog : (a.propose i (entryOf (c.state i).view im.message ∅)).viewLog (c.state i).view
      = a.viewLog (c.state i).view ++ [entryOf (c.state i).view im.message ∅] := by
    simp [State.propose, htracks.view]
  have hpromise : (c.state i).op + 1
      ≤ (a.propose i (entryOf (c.state i).view im.message ∅)).promise i (c.state i).view := by
    have hlen := htracks.log.op
    simp only [State.propose, State.raise, htracks.view, and_self, if_true]
    omega
  have htracks₁ : Tracks f (a.propose i (entryOf (c.state i).view im.message ∅)) i
      (appendEntry { c.state i with clientTable := table }
        (entryOf (c.state i).view im.message {(c.state i).id})) := by
    refine (htracks.executed ⟨_, table, _, rfl⟩).append hext hst hop hnode ?_
    intro q hq
    obtain rfl : q = i := by simpa [entryOf, h.static.id] using hq
    exact ⟨hmem, hpromise⟩
  refine
    { step := Or.inr hstep
      others := (frame_propose a i _).node
      tracks := htracks₁
      sent := fun eff heff m hm => ?_
      executed := fun v n e res heff => by simp at heff
      nonces := fun j x v l hr => Or.inl hr
      entries := fun v e he => ?_
      length := fun v => ?_ }
  · obtain rfl := List.mem_singleton.mp heff
    cases hm
    refine ⟨hmem, ?_, htracks.commit.mono hext⟩
    simp only [prepareMessage]
    rw [hviewLog, hop, ← hlog, entryAt_append_length]
    rfl
  · by_cases hv : v = (c.state i).view
    · subst hv
      rw [hviewLog, List.mem_append, List.mem_singleton] at he
      refine he.imp_right ?_
      rintro rfl
      have hrange := (h.range i hi).1
      rcases h.head hqueue with hclient | ⟨k, -, -, hmeaning⟩
      · simp only [isClientMessage, Bool.and_eq_true, decide_eq_true_eq] at hclient
        exact ⟨by simp only [entryOf]; omega, hclient.1.2, by simp only [entryOf]; omega⟩
      · simp only [hcmd] at hmeaning
    · exact Or.inl (by simpa [State.propose, htracks.view, hv] using he)
  · by_cases hv : v = (c.state i).view
    · subst hv
      rw [hviewLog, List.length_append, List.length_singleton, hlog]
      exact hlt
    · simpa [State.propose, htracks.view, hv] using h.length v

theorem Refines.accept (hsmall : 2 * f + 1 ≤ 2 ^ 8) (hqueue : c.queue i = im :: rest)
    {s' : ReplicaState} {effs : List Effect}
    (hcmd : im.message.header.command = .prepare) (hst : (c.state i).status = .normal)
    (hview : im.message.header.view = (c.state i).view)
    (hop : im.message.header.op = u64 ((c.state i).op + 1))
    (hexec : Executed (raiseTo (appendEntry (c.state i) (entryOf (c.state i).view im.message ∅))
      im.message.header.commit) s' effs) :
    Outcome f c a i s'
      (.toConnection im.connection (prepareOkMessage (c.state i) (u64 ((c.state i).op + 1)))
        :: effs)
      (a.accept i (entryOf (c.state i).view im.message ∅)) := by
  have htracks := h.nodes i hi
  have hmem := h.lt hi
  obtain ⟨k, -, -, hmeaning⟩ := h.head_meaning hqueue (by simp [hcmd]) (by simp [hcmd])
  simp only [hcmd] at hmeaning
  obtain ⟨hentry, hcommit⟩ := hmeaning
  rw [hview] at hentry hcommit
  have hop' : u64 ((c.state i).op + 1) = (c.state i).op + 1 :=
    h.u64_op hi fun hzero => by
      rw [hop, hzero] at hentry
      cases hentry
  have hast : (a.node i).status = .normal := by rw [htracks.status, hst]; rfl
  have he : (a.viewLog (a.node i).view)[(a.node i).log.length]?
      = some (entryOf (c.state i).view im.message ∅) := by
    rw [hop, hop', htracks.log.op] at hentry
    rw [htracks.view]
    exact hentry
  have hstep := Step.accept (C := config f) i _ (mem_members.mpr hmem) hast he
  have hext := (hstep.extends h.inv).1
  have hinv := hstep.inv h.inv
  have hnode : ((a.accept i (entryOf (c.state i).view im.message ∅)).node i)
      = { a.node i with log := (a.node i).log ++ [entryOf (c.state i).view im.message ∅] } := by
    simp [State.accept, State.set]
  have hpromise : (c.state i).op + 1
      ≤ (a.accept i (entryOf (c.state i).view im.message ∅)).promise i (c.state i).view := by
    have hlen := htracks.log.op
    simp only [State.accept, State.raise, htracks.view, and_self, if_true]
    omega
  have hst₁ : (raiseTo (appendEntry (c.state i) (entryOf (c.state i).view im.message ∅))
      im.message.header.commit).status = .normal := hst
  have htracks₁ : Tracks f (a.accept i (entryOf (c.state i).view im.message ∅)) i
      (raiseTo (appendEntry (c.state i) (entryOf (c.state i).view im.message ∅))
        im.message.header.commit) := by
    refine (htracks.append (e := entryOf _ _ ∅) hext hst hop' hnode ?_).raise
      (hcommit.mono hext)
    intro q hq
    simp [entryOf] at hq
  obtain ⟨hsent, hperf⟩ := htracks₁.effects hinv hmem hst₁ hexec
  refine
    { step := Or.inr hstep
      others := (frame_accept a i _).node
      tracks := htracks₁.executed hexec.state
      sent := fun eff heff m hm => ?_
      executed := fun v n e res heff => ?_
      nonces := fun j x v l hr => Or.inl hr
      entries := fun v e he => Or.inl he
      length := h.length }
  · rcases List.mem_cons.mp heff with rfl | heff
    · cases hm
      refine ⟨hmem, h.id_eq hi hsmall, (htracks.started h.inv hmem (by simp [hst])).mono hext, ?_⟩
      simp only [prepareOkMessage]
      rw [hop']
      exact ⟨Nat.le_add_left .., hpromise⟩
    · exact hsent eff heff m hm
  · rcases List.mem_cons.mp heff with heq | heff
    · cases heq
    · exact hperf v n e res heff

theorem Refines.acknowledge (hqueue : c.queue i = im :: rest) {entry : LogEntry}
    {s' : ReplicaState} {effs : List Effect}
    (hcmd : im.message.header.command = .prepareOk) (hst : (c.state i).status = .normal)
    (hview : im.message.header.view = (c.state i).view)
    (hentry : (c.state i).log[im.message.header.op]? = some entry)
    (hexec : Executed (advanced
      (recordAck (c.state i) im.message.header.op im.message.header.replica entry)) s' effs) :
    Outcome f c a i s' effs a := by
  have htracks := h.nodes i hi
  have hmem := h.lt hi
  obtain ⟨k, -, hk, hmeaning⟩ := h.head_meaning hqueue (by simp [hcmd]) (by simp [hcmd])
  simp only [hcmd] at hmeaning
  obtain ⟨hreplica, -, -, hpromise⟩ := hmeaning
  rw [hview] at hpromise
  have hacks : ∀ (n : Nat) (e : LogEntry),
      (recordAck (c.state i) im.message.header.op im.message.header.replica entry).log[n]?
        = some e → ∀ q ∈ e.prepareOkAcks, q < 2 * f + 1 ∧ n ≤ a.promise q (c.state i).view := by
    intro n e he q hq
    simp only [recordAck] at he
    rw [Std.ExtTreeMap.getElem?_insert] at he
    split at he
    · rename_i hn
      have hn : im.message.header.op = n := by simpa using hn
      have he := Option.some.inj he
      subst he hn
      rcases Finset.mem_insert.mp hq with rfl | hq
      · rw [hreplica]
        exact ⟨hk, hpromise⟩
      · exact htracks.acks hst _ entry hentry q hq
    · exact htracks.acks hst n e he q hq
  have hrep := htracks.log.insert_same hentry
    (show ({ entry with prepareOkAcks := insert im.message.header.replica entry.prepareOkAcks } :
      LogEntry).strip = entry.strip from rfl)
  generalize hr : recordAck (c.state i) im.message.header.op im.message.header.replica entry = s₁
    at hexec hacks
  have hst₁ : (advanced s₁).status = .normal := by rw [← hr]; exact hst
  have hview₁ : (advanced s₁).view = (c.state i).view := by rw [← hr]; rfl
  have hcommit : Known f a (c.state i).view (advanced s₁).commit := by
    rcases advanceLoop_cases s₁.faultToleranceF s₁.log s₁.log.size s₁.commit
      with heq | ⟨e, he, hcard⟩
    · rw [advanced, heq, ← hr]
      exact htracks.commit
    · -- the acknowledgements on record are promises of a quorum
      refine Or.inr ⟨(c.state i).view, Nat.le_refl _, e.prepareOkAcks, ⟨?_, ?_⟩, ?_⟩
      · exact fun q hq => mem_members.mpr (hacks _ e he q hq).1
      · rw [← hr] at hcard
        exact h.faultToleranceF i ▸ hcard
      · exact fun q hq => (hacks _ e he q hq).2
  have htracks₁ : Tracks f a i (advanced s₁) := by
    refine .of_normal hst₁ (htracks.view.trans hview₁.symm) ?_ ?_ (hview₁ ▸ hcommit)
      (hview₁ ▸ hacks)
    · rw [htracks.status, hst]; rfl
    · rw [← hr]; exact hrep
  obtain ⟨hsent, hperf⟩ := htracks₁.effects h.inv hmem hst₁ hexec
  exact h.stutter (htracks₁.executed hexec.state) hsent hperf

theorem Refines.learn (hqueue : c.queue i = im :: rest) {s' : ReplicaState} {effs : List Effect}
    (hcmd : im.message.header.command = .commit) (hst : (c.state i).status = .normal)
    (hview : im.message.header.view = (c.state i).view)
    (hexec : Executed (raiseTo (c.state i) im.message.header.commit) s' effs) :
    Outcome f c a i s' effs a := by
  have htracks := h.nodes i hi
  have hmem := h.lt hi
  obtain ⟨k, -, -, hmeaning⟩ := h.head_meaning hqueue (by simp [hcmd]) (by simp [hcmd])
  simp only [hcmd] at hmeaning
  have htracks₁ := htracks.raise (hview ▸ hmeaning.2)
  obtain ⟨hsent, hperf⟩ := htracks₁.effects h.inv hmem hst hexec
  exact h.stutter (htracks₁.executed hexec.state) hsent hperf

end

end VsrKv
