import VsrKv.Tally

/-!
# Who is counted how often

The handlers count messages, not senders: a new primary starts its view
after `f + 1` `DoViewChange` messages and a recovery ends after `f + 1`
responses, whoever sent them. That these are `f + 1` different replicas
follows from how messages come about, as long as the network does not
duplicate them.

The argument is one of bookkeeping. Each `StartViewChange` that can
still reach a replica, or is already in its set, is a ticket for the
next view, and so is every replica that has not yet sent its own; there
are never more tickets than replicas (`tickets`). A vote costs more than
half of them, so no replica votes twice in a view. A recovery request
and the response to it are one ticket in two shapes.
-/

namespace VsrKv

open Replica

namespace Cluster

/-! ## Tickets -/

/-- The replicas that have not reached view `w`. -/
def behind (c : Cluster) (w : Nat) : Nat :=
  ((Finset.range c.size).filter fun j => (c.state j).view < w).card

/-- The tickets for view `w` a replica has been handed. -/
def held (s : ReplicaState) (w : Nat) : Nat :=
  if s.view = w ∧ s.status = .viewChange then s.startViewChangeReceived.card else 0

def tickets (c : Cluster) (i w : Nat) : Nat :=
  c.pending i (isStartViewChange w) + held (c.state i) w + c.behind w

variable {c c' : Cluster} {ev : Event}

theorem behind_mono (hsize : c'.size = c.size)
    (hviews : ∀ j, (c.state j).view ≤ (c'.state j).view) (w : Nat) : c'.behind w ≤ c.behind w := by
  refine Finset.card_le_card ?_
  intro j hj
  rw [Finset.mem_filter, hsize] at hj
  exact Finset.mem_filter.mpr ⟨hj.1, (hviews j).trans_lt hj.2⟩

theorem behind_enter {i : Nat} (hi : i < c.size) (hsize : c'.size = c.size)
    (hviews : ∀ j, (c.state j).view ≤ (c'.state j).view)
    (hview : (c.state i).view < (c'.state i).view) :
    c'.behind (c'.state i).view + 1 ≤ c.behind (c'.state i).view := by
  refine Finset.card_lt_card ⟨?_, ?_⟩
  · intro j hj
    rw [Finset.mem_filter, hsize] at hj
    exact Finset.mem_filter.mpr ⟨hj.1, (hviews j).trans_lt hj.2⟩
  · intro hsub
    have hmem := hsub (Finset.mem_filter.mpr ⟨Finset.mem_range.mpr hi, hview⟩)
    exact absurd (Finset.mem_filter.mp hmem).2 (lt_irrefl _)

theorem held_mono {s s' : ReplicaState}
    (h : s'.status = .viewChange → s.status = .viewChange ∧ s'.view = s.view
      ∧ s'.startViewChangeReceived ⊆ s.startViewChangeReceived) (w : Nat) :
    held s' w ≤ held s w := by
  unfold held
  split
  · rename_i hw
    obtain ⟨hst, hview, hsub⟩ := h hw.2
    rw [if_pos ⟨hview ▸ hw.1, hst⟩]
    exact Finset.card_le_card hsub
  · exact Nat.zero_le _

theorem held_of_not_changing {s : ReplicaState} (h : s.status ≠ .viewChange) (w : Nat) :
    held s w = 0 := if_neg fun hw => h hw.2

section

variable {i : Nat} {im : InboundMessage} {rest : List InboundMessage} {s' : ReplicaState}
  {effs : List Effect}

/-- The tickets of a replica that has taken `done` off its queue and handed
out none. -/
theorem Local.tickets_self (hlocal : Local c c' i s' rest effs) (done : List InboundMessage)
    (hqueue : c.queue i = done ++ rest) (hviews : ∀ j, (c.state j).view ≤ (c'.state j).view)
    (hmail : ∀ eff ∈ effs, ∀ m, eff.message? = some m → m.header.command ≠ .startViewChange)
    (w : Nat) :
    c'.tickets i w + done.countP (isStartViewChange w ·.message) + held (c.state i) w
      ≤ c.tickets i w + held s' w := by
  have hcount := hlocal.pending_eq done hqueue (isStartViewChange w) i
  have hzero : mailed i (peers s') effs i (isStartViewChange w) = 0 :=
    mailed_eq_zero (fun eff heff m hm => by simp [isStartViewChange, hmail eff heff m hm]) i
  have hbehind := behind_mono hlocal.size hviews w
  rw [if_pos rfl] at hcount
  rw [tickets, tickets, hlocal.state_self]
  omega

/-- What a replica holds more than before, it has taken off its queue. -/
theorem Local.tickets_le (hlocal : Local c c' i s' rest effs) (done : List InboundMessage)
    (hqueue : c.queue i = done ++ rest) (hviews : ∀ j, (c.state j).view ≤ (c'.state j).view)
    (hmail : ∀ eff ∈ effs, ∀ m, eff.message? = some m → m.header.command ≠ .startViewChange)
    {w : Nat} (hheld : held s' w
      ≤ held (c.state i) w + done.countP (isStartViewChange w ·.message)) (k : Nat) :
    c'.tickets k w ≤ c.tickets k w := by
  by_cases hk : k = i
  · subst hk
    have hself := hlocal.tickets_self done hqueue hviews hmail w
    omega
  · have hcount := hlocal.pending_eq done hqueue (isStartViewChange w) k
    have hzero : mailed i (peers s') effs k (isStartViewChange w) = 0 :=
      mailed_eq_zero (fun eff heff m hm => by simp [isStartViewChange, hmail eff heff m hm]) k
    have hbehind := behind_mono hlocal.size hviews w
    rw [if_neg hk] at hcount
    rw [tickets, tickets, hlocal.state_ne k hk]
    omega

/-- Who enters a view is no longer behind it, and hands out one ticket for
that to each replica, itself included. -/
theorem Local.tickets_enterView (hstatic : Static c) (hst : (c.state i).status = .normal)
    (hs' : s' = (c.state i).enterNewView ((c.state i).view + 1))
    (hlocal : Local c c' i s' (c.queue i) [.broadcast (startViewChangeMessage s')])
    (hviews : ∀ j, (c.state j).view ≤ (c'.state j).view) (k w : Nat) :
    c'.tickets k w ≤ c.tickets k w := by
  have hview : s'.view = (c.state i).view + 1 := by rw [hs']; rfl
  have hview' : (c'.state i).view = (c.state i).view + 1 := by rw [hlocal.state_self, hview]
  have hcount := hlocal.pending_eq [] rfl (isStartViewChange w) k
  have hpeers : peers s' = peers (c.state i) := by rw [hs']; rfl
  rw [hpeers, mailed_broadcast hstatic.nodup_peers] at hcount
  simp only [List.countP_nil, ite_self, Nat.add_zero] at hcount
  have hbefore : held (c.state i) w = 0 := held_of_not_changing (by simp [hst]) w
  by_cases hw : w = s'.view
  · have hbehind := behind_enter hlocal.lt hlocal.size hviews (by omega)
    rw [hview', ← hview, ← hw] at hbehind
    by_cases hk : k = i
    · subst hk
      rw [if_neg fun h => (hstatic.mem_peers.mp h.1).2 rfl] at hcount
      have hafter : held s' w = 1 := by
        rw [held, if_pos ⟨hw.symm, by rw [hs']; rfl⟩, hs']
        rfl
      rw [tickets, tickets, hlocal.state_self, hbefore, hafter]
      omega
    · rw [tickets, tickets, hlocal.state_ne k hk]
      split at hcount <;> omega
  · have hbehind := behind_mono hlocal.size hviews w
    have hother : isStartViewChange w (startViewChangeMessage s') = false := by
      have hne : ¬s'.view = w := fun h => hw h.symm
      simp [isStartViewChange, startViewChangeMessage, hne]
    rw [if_neg fun h => by simp [hother] at h] at hcount
    have hafter : held s' w = 0 := if_neg fun h => hw h.1.symm
    have hheld : held (c'.state k) w ≤ held (c.state k) w :=
      hlocal.state_rel (P := fun s t => held t w ≤ held s w) (fun _ => Nat.le_refl _)
        (hafter ▸ Nat.zero_le _) k
    rw [tickets, tickets]
    omega

/-- Handling a message hands out no tickets. -/
theorem tally_no_startViewChange {s : ReplicaState} (h : Tally s im s' effs) :
    ∀ eff ∈ effs, ∀ m, eff.message? = some m → m.header.command ≠ .startViewChange := by
  intro eff heff m hm
  cases h with
  | nothing hgain heffs => exact (heffs eff heff m hm).1
  | join hmsg hst hs' heffs => subst heffs; cases heff
  | vote hmsg hst hquorum hspent d hcmd hview hreplica hcast hresponses =>
      rcases hcast with ⟨⟨p, rfl⟩, -⟩ | ⟨heffs, -⟩
      · obtain rfl := List.mem_singleton.mp heff
        cases hm
        simp [hcmd]
      · exact (heffs eff heff m hm).1
  | collect hchanging hvotes hresponses heffs => exact (heffs eff heff m hm).1
  | respond x hs' hmsg heffs =>
      subst heffs
      obtain rfl := List.mem_singleton.mp heff
      cases hm
      simp [recoveryResponseMessage]
  | gather hs' heffs => subst heffs; cases heff

theorem held_tally {s : ReplicaState} (h : Tally s im s' effs) (w : Nat) :
    held s' w ≤ held s w + [im].countP (isStartViewChange w ·.message) := by
  rw [List.countP_singleton]
  cases h with
  | nothing hgain heffs => exact (held_mono hgain.changing w).trans (Nat.le_add_right ..)
  | join hmsg hst hs' heffs =>
      by_cases hw : s.view = w
      · subst hw hs'
        have := Finset.card_insert_le im.message.header.replica s.startViewChangeReceived
        rw [if_pos hmsg, held, held, if_pos ⟨rfl, hst⟩, if_pos ⟨rfl, hst⟩]
        exact this
      · subst hs'
        rw [held, if_neg fun h => hw h.1]
        exact Nat.zero_le _
  | vote hmsg hst hquorum hspent d hcmd hview hreplica hcast hresponses =>
      have hzero : held s' w = 0 := by
        unfold held
        split
        · rename_i h; simp [(hspent h.2).2]
        · rfl
      rw [hzero]
      exact Nat.zero_le _
  | collect hchanging hvotes hresponses heffs =>
      refine (held_mono ?_ w).trans (Nat.le_add_right ..)
      intro h
      obtain ⟨h₁, h₂, h₃⟩ := hchanging h
      exact ⟨h₁, h₂, h₃ ▸ Finset.Subset.refl _⟩
  | respond x hs' hmsg heffs => subst hs'; exact Nat.le_add_right ..
  | gather hs' heffs => subst hs'; exact Nat.le_add_right ..

/-- The vote of a replica costs it a quorum of tickets. -/
theorem Local.tickets_spend (hlocal : Local c c' i s' rest effs)
    (hqueue : c.queue i = im :: rest) (hviews : ∀ j, (c.state j).view ≤ (c'.state j).view)
    (htally : Tally (c.state i) im s' effs)
    (hmsg : isStartViewChange (c.state i).view im.message = true)
    (hst : (c.state i).status = .viewChange)
    (hquorum : (c.state i).faultToleranceF + 1
      ≤ (insert im.message.header.replica (c.state i).startViewChangeReceived).card)
    (hspent : s'.status = .viewChange → s'.view = (c.state i).view
      ∧ s'.startViewChangeReceived = ∅) :
    c'.tickets i (c.state i).view + ((c.state i).faultToleranceF + 1)
      ≤ c.tickets i (c.state i).view := by
  have hself := hlocal.tickets_self [im] hqueue hviews (tally_no_startViewChange htally)
    (c.state i).view
  have hinsert :=
    Finset.card_insert_le im.message.header.replica (c.state i).startViewChangeReceived
  have hbefore : held (c.state i) (c.state i).view
      = (c.state i).startViewChangeReceived.card := if_pos ⟨rfl, hst⟩
  have hafter : held s' (c.state i).view = 0 := by
    unfold held
    split
    · rename_i h; simp [(hspent h.2).2]
    · rfl
  rw [List.countP_singleton, if_pos hmsg] at hself
  omega

end

/-- No step adds tickets. -/
theorem Moves.tickets_le (hmoves : Moves c ev c') (hstatic : Static c)
    (honce : ev.isDuplicate = false) (hrange : ∀ i < c.size, (c.state i).view + 1 < 2 ^ 32)
    (hviews : ∀ j, (c.state j).view ≤ (c'.state j).view) (k w : Nat) :
    c'.tickets k w ≤ c.tickets k w := by
  cases hmoves with
  | quiet hsize hstate htrace hmem hcount =>
      have hpend := hcount k (isStartViewChange w)
        fun m hm => (uncounted_of_client hm).startViewChange w
      have hbehind := behind_mono hsize hviews w
      rw [tickets, tickets, hstate]
      omega
  | duplicate n hev => subst hev; cases honce
  | act i env hev im rest s' effs hqueue hstale hacts hlocal =>
      exact hlocal.tickets_le [im] hqueue hviews (tally_no_startViewChange hacts.tally)
        (held_tally hacts.tally w) k
  | enterView i s' hst hs' hlocal =>
      rw [u32_eq (hrange i hlocal.lt)] at hs'
      exact hlocal.tickets_enterView hstatic hst hs' hviews k w
  | enterRecovery i stuck rest nonce s' hst hqueue hcan haction hs' hlocal =>
      refine hlocal.tickets_le (c.queue i) (by simp) hviews ?_ ?_ k
      · exact forall_message_singleton rfl (by simp [recoveryMessage])
      · rw [held_of_not_changing (by simp [hs']) w]
        exact Nat.zero_le _
  | heartbeat i hst hprimary hlocal =>
      refine hlocal.tickets_le [] rfl hviews ?_ (Nat.le_add_right ..) k
      exact forall_message_singleton rfl (by simp [commitMessage])
  | restart i hev hlt hsize hself hne htrace hpend =>
      have hbehind := behind_mono hsize hviews w
      by_cases hk : k = i
      · subst hk
        have hafter : held (c'.state k) w = 0 :=
          held_of_not_changing (by simp [hself, ReplicaState.new]) w
        rw [tickets, tickets, hafter, pending, hpend, if_pos rfl, List.countP_nil]
        omega
      · rw [tickets, tickets, hne k hk, pending, hpend, if_neg hk, pending]
        omega

/-! ## Votes -/

/-- The votes of `s` for view `w` that `p` has or may still get: those sent,
those collected, and the one `s` has the tickets to cast. -/
def votes (c : Cluster) (p s w : Nat) : Nat :=
  c.pending p (isDoViewChange w s)
    + (c.state p).doViewChangeReceived.countP (isDoViewChange w s)
    + (if (c.size - 1) / 2 + 1 ≤ c.tickets s w then 1 else 0)

theorem ballot_mono {n t t' : Nat} (h : t' ≤ t) :
    (if n ≤ t' then 1 else 0) ≤ (if n ≤ t then 1 else 0) := by
  split
  · rw [if_pos (by omega)]
  · exact Nat.zero_le _

theorem sublist_of_same_or_nil {l l' r : List VsrMessage} (h : l' = l ∨ l' = []) :
    l'.Sublist (l ++ r) := by
  rcases h with rfl | rfl
  · exact List.sublist_append_left _ _
  · exact List.nil_sublist _

section

variable {i : Nat} {s' : ReplicaState} {q' : List InboundMessage} {effs : List Effect}

/-- Messages of a kind, pending or collected, do not grow in a local step that
mails none: what the replica collects it takes off its queue. -/
theorem Local.collected_le (hlocal : Local c c' i s' q' effs) (done : List InboundMessage)
    (hqueue : c.queue i = done ++ q') (kind : VsrMessage → Bool)
    (hmail : ∀ eff ∈ effs, ∀ m, eff.message? = some m → kind m = false)
    (collected : ReplicaState → List VsrMessage)
    (hcollected : (collected s').Sublist (collected (c.state i) ++ done.map (·.message)))
    (p : Nat) :
    c'.pending p kind + (collected (c'.state p)).countP kind
      ≤ c.pending p kind + (collected (c.state p)).countP kind := by
  have hcount := hlocal.pending_eq done hqueue kind p
  rw [mailed_eq_zero hmail] at hcount
  by_cases hp : p = i
  · subst hp
    have hle := hcollected.countP_le (p := kind)
    rw [List.countP_append, List.countP_map] at hle
    have hcomp : (kind ∘ fun im : InboundMessage => im.message) = fun im => kind im.message := rfl
    rw [hcomp] at hle
    rw [if_pos rfl] at hcount
    rw [hlocal.state_self]
    omega
  · rw [hlocal.state_ne p hp]
    omega

/-- A local step that casts no vote. -/
theorem Local.votes_le (hlocal : Local c c' i s' q' effs) (done : List InboundMessage)
    (hqueue : c.queue i = done ++ q')
    (hmail : ∀ eff ∈ effs, ∀ m, eff.message? = some m → m.header.command ≠ .doViewChange)
    (hreceived : s'.doViewChangeReceived.Sublist
      ((c.state i).doViewChangeReceived ++ done.map (·.message)))
    {s w : Nat} (hmono : c'.tickets s w ≤ c.tickets s w) (p : Nat) :
    c'.votes p s w ≤ c.votes p s w := by
  have hcollected := hlocal.collected_le done hqueue (isDoViewChange w s)
    (fun eff heff m hm => by simp [isDoViewChange, hmail eff heff m hm])
    ReplicaState.doViewChangeReceived hreceived p
  have hballot := ballot_mono (n := (c.size - 1) / 2 + 1) hmono
  rw [votes, votes, hlocal.size]
  omega

/-- A vote costs the replica that casts it the tickets to cast another. -/
theorem Local.votes_cast {im : InboundMessage} (hlocal : Local c c' i s' q' effs)
    (hqueue : c.queue i = im :: q') (hstatic : Static c) (hlt : i < 2 ^ 8)
    (hspend : c'.tickets i (c.state i).view + ((c.size - 1) / 2 + 1)
      ≤ c.tickets i (c.state i).view)
    (hhalf : c.tickets i (c.state i).view < 2 * ((c.size - 1) / 2 + 1))
    {d : VsrMessage} (hview : d.header.view = (c.state i).view)
    (hreplica : d.header.replica = u8 (c.state i).id)
    (hcast : (∃ p, effs = [.toPeer p d])
        ∧ s'.doViewChangeReceived = (c.state i).doViewChangeReceived
      ∨ UncountedAll effs ∧ (s'.doViewChangeReceived = (c.state i).doViewChangeReceived ++ [d]
        ∨ s'.doViewChangeReceived = []))
    {s w : Nat} (hmono : c'.tickets s w ≤ c.tickets s w) (p : Nat) :
    c'.votes p s w ≤ c.votes p s w := by
  have hcount := hlocal.pending_eq [im] hqueue (isDoViewChange w s) p
  have hballot := ballot_mono (n := (c.size - 1) / 2 + 1) hmono
  have hid : d.header.replica = i := by rw [hreplica, hstatic.id, u8_eq hlt]
  -- the vote is the one of `i` for its view, paid for with the tickets for that view
  have hpaid : (if isDoViewChange w s d then 1 else 0)
      + (if (c.size - 1) / 2 + 1 ≤ c'.tickets s w then 1 else 0)
      ≤ (if (c.size - 1) / 2 + 1 ≤ c.tickets s w then 1 else 0) := by
    by_cases hd : isDoViewChange w s d = true
    · simp only [isDoViewChange, Bool.and_eq_true, beq_iff_eq] at hd
      obtain ⟨⟨-, hw⟩, hs⟩ := hd
      obtain rfl : (c.state i).view = w := by omega
      obtain rfl : i = s := by omega
      rw [if_neg (show ¬(c.size - 1) / 2 + 1 ≤ c'.tickets i (c.state i).view by omega),
        if_pos (show (c.size - 1) / 2 + 1 ≤ c.tickets i (c.state i).view by omega)]
      split <;> omega
    · rw [if_neg hd]
      omega
  have hgain : mailed i (peers s') effs p (isDoViewChange w s)
      + (c'.state p).doViewChangeReceived.countP (isDoViewChange w s)
      ≤ (c.state p).doViewChangeReceived.countP (isDoViewChange w s)
        + (if isDoViewChange w s d then 1 else 0) := by
    rcases hcast with ⟨⟨q, rfl⟩, hsame⟩ | ⟨heffs, hcollected⟩
    · have hreceived : (c'.state p).doViewChangeReceived = (c.state p).doViewChangeReceived :=
        hlocal.state_rel
          (P := fun s t => t.doViewChangeReceived = s.doViewChangeReceived) (fun _ => rfl) hsame p
      rw [mailed_toPeer, hreceived]
      split
      · rename_i h; rw [if_pos h.2.2]; omega
      · omega
    · rw [mailed_eq_zero fun eff heff m hm => (heffs eff heff m hm).doViewChange w s]
      by_cases hp : p = i
      · subst hp
        rw [hlocal.state_self]
        rcases hcollected with hcollected | hcollected
        · rw [hcollected, List.countP_append, List.countP_singleton]
          omega
        · rw [hcollected, List.countP_nil]
          omega
      · rw [hlocal.state_ne p hp]
        omega
  rw [votes, votes, hlocal.size]
  omega

/-- Handling a message adds no votes: the one it may cast has been paid for
with the tickets that made it possible. -/
theorem Local.votes_act {im : InboundMessage} (hlocal : Local c c' i s' q' effs)
    (hqueue : c.queue i = im :: q') (htally : Tally (c.state i) im s' effs)
    (hstatic : Static c) (hlt : i < 2 ^ 8) (hodd : c.size = 2 * ((c.size - 1) / 2) + 1)
    (htickets : ∀ k w, c.tickets k w ≤ c.size)
    (hviews : ∀ j, (c.state j).view ≤ (c'.state j).view) {s w : Nat}
    (hmono : c'.tickets s w ≤ c.tickets s w) (p : Nat) : c'.votes p s w ≤ c.votes p s w := by
  have hvotes : ∀ {l : List VsrMessage}, l = (c.state i).doViewChangeReceived →
      l.Sublist ((c.state i).doViewChangeReceived ++ [im].map (·.message)) := fun h =>
    sublist_of_same_or_nil (Or.inl h)
  have huncounted : UncountedAll effs →
      ∀ eff ∈ effs, ∀ m, eff.message? = some m → m.header.command ≠ .doViewChange :=
    fun heffs eff heff m hm => (heffs eff heff m hm).2.1
  cases htally with
  | nothing hgain heffs =>
      exact hlocal.votes_le [im] hqueue (huncounted heffs) (sublist_of_same_or_nil hgain.votes)
        hmono p
  | join hmsg hst hs' heffs =>
      exact hlocal.votes_le [im] hqueue (huncounted (heffs ▸ .nil)) (hvotes (by rw [hs'])) hmono p
  | vote hmsg hst hquorum hspent d hcmd hview hreplica hcast hresponses =>
      have hspend := hlocal.tickets_spend hqueue hviews
        (.vote hmsg hst hquorum hspent d hcmd hview hreplica hcast hresponses) hmsg hst hquorum
        hspent
      have hbound := htickets i (c.state i).view
      rw [hstatic.f i] at hspend
      exact hlocal.votes_cast hqueue hstatic hlt hspend (by omega) hview hreplica hcast hmono p
  | collect hchanging hcollected hresponses heffs =>
      refine hlocal.votes_le [im] hqueue (huncounted heffs) ?_ hmono p
      rcases hcollected with hcollected | hcollected
      · rw [hcollected]; exact List.Sublist.refl _
      · rw [hcollected]; exact List.nil_sublist _
  | respond x hs' hmsg heffs =>
      refine hlocal.votes_le [im] hqueue ?_ (hvotes (by rw [hs'])) hmono p
      intro eff heff m hm
      rw [heffs, List.mem_singleton] at heff
      subst heff
      cases hm
      simp [recoveryResponseMessage]
  | gather hs' heffs =>
      exact hlocal.votes_le [im] hqueue (huncounted (heffs ▸ .nil)) (hvotes (by rw [hs'])) hmono p

end

/-- No step adds votes. -/
theorem Moves.votes_le (hmoves : Moves c ev c') (hstatic : Static c)
    (honce : ev.isDuplicate = false) (hodd : c.size = 2 * ((c.size - 1) / 2) + 1)
    (hsmall : c.size ≤ 2 ^ 8) (htickets : ∀ k w, c.tickets k w ≤ c.size)
    (hviews : ∀ j, (c.state j).view ≤ (c'.state j).view)
    (hmono : ∀ k w, c'.tickets k w ≤ c.tickets k w) (p s w : Nat) :
    c'.votes p s w ≤ c.votes p s w := by
  have hballot := ballot_mono (n := (c.size - 1) / 2 + 1) (hmono s w)
  cases hmoves with
  | quiet hsize hstate htrace hmem hcount =>
      have hpend := hcount p (isDoViewChange w s)
        fun m hm => (uncounted_of_client hm).doViewChange w s
      rw [votes, votes, hstate, hsize]
      omega
  | duplicate n hev => subst hev; cases honce
  | act i env hev im rest s' effs hqueue hstale hacts hlocal =>
      exact hlocal.votes_act hqueue hacts.tally hstatic (hlocal.lt.trans_le hsmall) hodd htickets
        hviews (hmono s w) p
  | enterView i s' hst hs' hlocal =>
      refine hlocal.votes_le [] rfl ?_
        (sublist_of_same_or_nil (Or.inr (by rw [hs']; rfl))) (hmono s w) p
      exact forall_message_singleton rfl (by simp [startViewChangeMessage])
  | enterRecovery i stuck rest nonce s' hst hqueue hcan haction hs' hlocal =>
      refine hlocal.votes_le (c.queue i) (by simp) ?_
        (sublist_of_same_or_nil (Or.inl (by rw [hs']))) (hmono s w) p
      exact forall_message_singleton rfl (by simp [recoveryMessage])
  | heartbeat i hst hprimary hlocal =>
      refine hlocal.votes_le [] rfl ?_
        (sublist_of_same_or_nil (Or.inl rfl)) (hmono s w) p
      exact forall_message_singleton rfl (by simp [commitMessage])
  | restart i hev hlt hsize hself hne htrace hpend =>
      by_cases hp : p = i
      · subst hp
        rw [votes, votes, hself, pending, hpend, if_pos rfl, hsize]
        simp only [ReplicaState.new, List.countP_nil]
        omega
      · rw [votes, votes, hne p hp, pending, hpend, if_neg hp, hsize, ← pending]
        omega

/-! ## Responses -/

/-- The answers of `q` to the request `x` of `r`: the request on its way,
the response on its way, the response received. -/
def answers (c : Cluster) (r q : Nat) (x : UInt128) : Nat :=
  c.pending q (isRecovery x r) + c.pending r (isRecoveryResponse x q)
    + (c.state r).recoveryResponses.countP (isRecoveryResponse x q)

section

variable {i : Nat} {s' : ReplicaState} {q' : List InboundMessage} {effs : List Effect}

/-- A step of one replica that mails neither requests nor responses, and
whose own responses do not grow but by the message it handles. -/
theorem Local.answers_le (hlocal : Local c c' i s' q' effs) (done : List InboundMessage)
    (hqueue : c.queue i = done ++ q')
    (hmail : ∀ eff ∈ effs, ∀ m, eff.message? = some m →
      m.header.command ≠ .recovery ∧ m.header.command ≠ .recoveryResponse)
    (hresponses : s'.recoveryResponses.Sublist
      ((c.state i).recoveryResponses ++ done.map (·.message))) (r q : Nat) (x : UInt128) :
    c'.answers r q x ≤ c.answers r q x := by
  have hrequest := hlocal.pending_eq done hqueue (isRecovery x r) q
  rw [mailed_eq_zero fun eff heff m hm => by
    simp [isRecovery, (hmail eff heff m hm).1]] at hrequest
  have hcollected := hlocal.collected_le done hqueue (isRecoveryResponse x q)
    (fun eff heff m hm => by simp [isRecoveryResponse, (hmail eff heff m hm).2])
    ReplicaState.recoveryResponses hresponses r
  rw [answers, answers]
  omega

/-- Answering turns the request into the response. -/
theorem Local.answers_respond {im : InboundMessage} {y : UInt128}
    (hlocal : Local c c' i (c.state i) q' effs) (hqueue : c.queue i = im :: q')
    (hstatic : Static c) (hlt : i < 2 ^ 8)
    (hmsg : isRecovery y im.message.header.replica im.message = true)
    (heffs : effs
      = [.toPeer im.message.header.replica (recoveryResponseMessage (c.state i) y)])
    (r q : Nat) (x : UInt128) : c'.answers r q x ≤ c.answers r q x := by
  have hrequest := hlocal.pending_eq [im] hqueue (isRecovery x r) q
  have hresponse := hlocal.pending_eq [im] hqueue (isRecoveryResponse x q) r
  have hstate : c'.state r = c.state r :=
    hlocal.state_rel (P := fun s t => t = s) (fun _ => rfl) rfl r
  rw [mailed_eq_zero fun eff heff m hm => by
    rw [heffs, List.mem_singleton] at heff
    subst heff
    cases hm
    simp [isRecovery, recoveryResponseMessage]] at hrequest
  have hmail := mailed_toPeer i (peers (c.state i)) im.message.header.replica
    (recoveryResponseMessage (c.state i) y) r (isRecoveryResponse x q)
  rw [← heffs] at hmail
  rw [answers, answers, hstate]
  by_cases hsent : r = im.message.header.replica
      ∧ isRecoveryResponse x q (recoveryResponseMessage (c.state i) y) = true
  · have hq : q = i ∧ x = y := by
      have h := hsent.2
      simp only [isRecoveryResponse, recoveryResponseMessage, Bool.and_eq_true, beq_iff_eq,
        hstatic.id, u8_eq hlt, deserialize_nonce] at h
      exact ⟨h.1.2.symm, h.2.symm⟩
    obtain ⟨rfl, rfl⟩ := hq
    obtain rfl := hsent.1
    rw [if_pos rfl, List.countP_singleton, if_pos hmsg] at hrequest
    split at hmail <;> omega
  · rw [if_neg fun h => hsent h.2] at hmail
    omega

theorem Local.answers_act {im : InboundMessage} (hlocal : Local c c' i s' q' effs)
    (hqueue : c.queue i = im :: q') (htally : Tally (c.state i) im s' effs)
    (hstatic : Static c) (hlt : i < 2 ^ 8) (r q : Nat) (x : UInt128) :
    c'.answers r q x ≤ c.answers r q x := by
  have hsame : ∀ {l : List VsrMessage}, l = (c.state i).recoveryResponses →
      l.Sublist ((c.state i).recoveryResponses ++ [im].map (·.message)) := fun h =>
    sublist_of_same_or_nil (Or.inl h)
  have huncounted : UncountedAll effs → ∀ eff ∈ effs, ∀ m, eff.message? = some m →
      m.header.command ≠ .recovery ∧ m.header.command ≠ .recoveryResponse :=
    fun heffs eff heff m hm => (heffs eff heff m hm).2.2
  cases htally with
  | nothing hgain heffs =>
      exact hlocal.answers_le [im] hqueue (huncounted heffs)
        (sublist_of_same_or_nil hgain.responses) r q x
  | join hmsg hst hs' heffs =>
      exact hlocal.answers_le [im] hqueue (huncounted (heffs ▸ .nil)) (hsame (by rw [hs'])) r q x
  | vote hmsg hst hquorum hspent d hcmd hview hreplica hcast hresponses =>
      refine hlocal.answers_le [im] hqueue ?_ (hsame hresponses) r q x
      rcases hcast with ⟨⟨p, rfl⟩, -⟩ | ⟨heffs, -⟩
      · exact forall_message_singleton rfl (by simp [hcmd])
      · exact huncounted heffs
  | collect hchanging hvotes hresponses heffs =>
      exact hlocal.answers_le [im] hqueue (huncounted heffs) (hsame hresponses) r q x
  | respond y hs' hmsg heffs =>
      subst hs'
      exact hlocal.answers_respond hqueue hstatic hlt hmsg heffs r q x
  | gather hs' heffs =>
      refine hlocal.answers_le [im] hqueue (huncounted (heffs ▸ .nil)) ?_ r q x
      rw [hs']
      exact List.Sublist.refl _

/-- Asking adds one answer to expect of each peer, under the nonce asked
with. -/
theorem Local.answers_request {t : ReplicaState}
    (hlocal : Local c c' i s' [] [.broadcast (recoveryMessage t)])
    (hstatic : Static c) (hlt : i < 2 ^ 8) (hsame : SameConfig (c.state i) s') (hid : t.id = i)
    (hresponses : s'.recoveryResponses = (c.state i).recoveryResponses
      ∨ s'.recoveryResponses = []) (r q : Nat) (x : UInt128) :
    c'.answers r q x
      ≤ c.answers r q x + if q ≠ r ∧ r = i ∧ x = t.recoveryNonce then 1 else 0 := by
  have hrequest := hlocal.pending_eq (c.queue i) (by simp) (isRecovery x r) q
  have hcollected := hlocal.collected_le (c.queue i) (by simp) (isRecoveryResponse x q)
    (fun eff heff m hm => by
      obtain rfl := List.mem_singleton.mp heff
      cases hm
      simp [isRecoveryResponse, recoveryMessage])
    ReplicaState.recoveryResponses (sublist_of_same_or_nil hresponses) r
  rw [hsame.peers_eq, mailed_broadcast hstatic.nodup_peers] at hrequest
  have hmine : q ∈ peers (c.state i) ∧ isRecovery x r (recoveryMessage t) = true →
      q ≠ r ∧ r = i ∧ x = t.recoveryNonce := by
    rintro ⟨hq, hkind⟩
    simp only [isRecovery, recoveryMessage, Bool.and_eq_true, beq_iff_eq, hid, u8_eq hlt,
      RecoveryRequestPayload.deserialize_serialize, Option.map_some, Option.some.injEq] at hkind
    obtain rfl := hkind.1.2
    exact ⟨(hstatic.mem_peers.mp hq).2, rfl, hkind.2.symm⟩
  have hone : (if q ∈ peers (c.state i) ∧ isRecovery x r (recoveryMessage t) = true then 1 else 0)
      ≤ if q ≠ r ∧ r = i ∧ x = t.recoveryNonce then 1 else 0 := by
    split
    · rename_i h; rw [if_pos (hmine h)]
    · exact Nat.zero_le _
  rw [answers, answers]
  omega

end

theorem nonces_mono (hsub : c.trace ⊆ c'.trace) : c.nonces ⊆ c'.nonces := by
  intro x hx
  obtain ⟨p, hp, hx⟩ := List.mem_filterMap.mp hx
  exact List.mem_filterMap.mpr ⟨p, hsub hp, hx⟩

/-- A request that has been made stays made. -/
theorem expected_mono (hsub : c.trace ⊆ c'.trace) (r q : Nat) (x : UInt128) :
    (if q ≠ r ∧ x ∈ c.nonces then 1 else 0) ≤ if q ≠ r ∧ x ∈ c'.nonces then 1 else 0 := by
  split
  · rename_i hx; rw [if_pos ⟨hx.1, nonces_mono hsub hx.2⟩]
  · exact Nat.zero_le _

/-- One that asks announces the nonce, and asks under one not used before. -/
theorem Local.answers_recovery {i : Nat} {s' t : ReplicaState}
    (hlocal : Local c c' i s' [] [.broadcast (recoveryMessage t)])
    (hstatic : Static c) (hlt : i < 2 ^ 8) (hsame : SameConfig (c.state i) s') (hid : t.id = i)
    (hresponses : s'.recoveryResponses = (c.state i).recoveryResponses
      ∨ s'.recoveryResponses = []) (hnew : t.recoveryNonce ∉ c.nonces)
    (r q : Nat) (x : UInt128) (h : c.answers r q x ≤ if q ≠ r ∧ x ∈ c.nonces then 1 else 0) :
    c'.answers r q x ≤ if q ≠ r ∧ x ∈ c'.nonces then 1 else 0 := by
  have hrequest := hlocal.answers_request hstatic hlt hsame hid hresponses r q x
  have hannounced : t.recoveryNonce ∈ c'.nonces := by
    rw [nonces, hlocal.trace, List.filterMap_append]
    refine List.mem_append_right _ ?_
    simp [Effect.nonce?, Effect.message?, VsrMessage.nonce?, recoveryMessage,
      RecoveryRequestPayload.deserialize_serialize]
  split at hrequest
  · rename_i hmine
    obtain ⟨hqr, -, rfl⟩ := hmine
    rw [if_neg fun h => hnew h.2] at h
    rw [if_pos ⟨hqr, hannounced⟩]
    omega
  · exact hrequest.trans (h.trans (expected_mono hlocal.trace_subset r q x))

/-- The only step that adds an answer to expect is the request itself, and it
announces a new nonce. -/
theorem Moves.answers_le (hmoves : Moves c ev c') (hstatic : Static c)
    (honce : ev.isDuplicate = false) (hsmall : c.size ≤ 2 ^ 8) (hfresh : c.FreshNonces c')
    (r q : Nat) (x : UInt128)
    (h : c.answers r q x ≤ if q ≠ r ∧ x ∈ c.nonces then 1 else 0) :
    c'.answers r q x ≤ if q ≠ r ∧ x ∈ c'.nonces then 1 else 0 := by
  have hbound := expected_mono hmoves.trace_subset r q x
  cases hmoves with
  | quiet hsize hstate htrace hmem hcount =>
      have hrequest := hcount q (isRecovery x r) fun m hm => (uncounted_of_client hm).recovery x r
      have hresponse := hcount r (isRecoveryResponse x q)
        fun m hm => (uncounted_of_client hm).recoveryResponse x q
      refine le_trans ?_ (h.trans hbound)
      rw [answers, answers, hstate]
      omega
  | duplicate n hev => subst hev; cases honce
  | act i env hev im rest s' effs hqueue hstale hacts hlocal =>
      exact (hlocal.answers_act hqueue hacts.tally hstatic (hlocal.lt.trans_le hsmall) r q x).trans
        (h.trans hbound)
  | enterView i s' hst hs' hlocal =>
      refine (hlocal.answers_le [] rfl ?_ ?_ r q x).trans
        (h.trans hbound)
      · exact forall_message_singleton rfl (by simp [startViewChangeMessage])
      · rw [hs']; exact List.sublist_append_left _ _
  | heartbeat i hst hprimary hlocal =>
      refine (hlocal.answers_le [] rfl ?_ ?_ r q x).trans
        (h.trans hbound)
      · exact forall_message_singleton rfl (by simp [commitMessage])
      · exact List.sublist_append_left _ _
  | restart i hev hlt hsize hself hne htrace hpend =>
      refine le_trans ?_ (h.trans hbound)
      have hpending : ∀ k kind, c'.pending k kind ≤ c.pending k kind := by
        intro k kind
        rw [pending, hpend]
        split
        · exact Nat.zero_le _
        · exact Nat.le_refl _
      have hrequest := hpending q (isRecovery x r)
      have hresponse := hpending r (isRecoveryResponse x q)
      have hreceived : (c'.state r).recoveryResponses.countP (isRecoveryResponse x q)
          ≤ (c.state r).recoveryResponses.countP (isRecoveryResponse x q) := by
        by_cases hr : r = i
        · subst hr; rw [hself]; exact Nat.zero_le _
        · rw [hne r hr]
      rw [answers, answers]
      omega
  | enterRecovery i stuck rest nonce s' hst hqueue hcan haction hs' hlocal =>
      have hnew := hfresh i hlocal.lt (by simp [hst]) (by rw [hlocal.state_self, hs'])
      rw [hlocal.state_self] at hnew
      exact hlocal.answers_recovery hstatic (hlocal.lt.trans_le hsmall) (hs' ▸ ⟨rfl, rfl, rfl⟩)
        (by rw [hs']; exact hstatic.id i) (Or.inr (by rw [hs'])) hnew r q x h

/-! ## The books balance -/

structure Counts (c : Cluster) : Prop where
  tickets : ∀ k w, c.tickets k w ≤ c.size
  votes : ∀ p s w, c.votes p s w ≤ 1
  answers : ∀ r q x, c.answers r q x ≤ if q ≠ r ∧ x ∈ c.nonces then 1 else 0

theorem counts_init (n : Nat) : Counts (init n) where
  tickets k w := by
    have hbehind : (init n).behind w ≤ n :=
      (Finset.card_filter_le _ _).trans (Finset.card_range n).le
    have hheld : held ((init n).state k) w = 0 := held_of_not_changing (by simp [state, init,
      freshNode, ReplicaState.new]) w
    have hpending : (init n).pending k (isStartViewChange w) = 0 := rfl
    rw [tickets, hheld, hpending, Nat.zero_add]
    exact hbehind
  votes p s w := by
    rw [votes]
    split <;> simp [pending, pend, netFor, queue, init, freshNode, state, ReplicaState.new]
  answers r q x := by
    simp [answers, pending, pend, netFor, queue, init, freshNode, state, ReplicaState.new]

theorem Counts.step (hcounts : Counts c) (hmoves : Moves c ev c') (hstatic : Static c)
    (hodd : c.size = 2 * ((c.size - 1) / 2) + 1) (hsmall : c.size ≤ 2 ^ 8) (hrange : c.InRange)
    (hok : Admissible c ev c') (hviews : ∀ j, (c.state j).view ≤ (c'.state j).view) :
    Counts c' := by
  have hmono := hmoves.tickets_le hstatic hok.once (fun i hi => (hrange i hi).1) hviews
  refine ⟨?_, ?_, ?_⟩
  · intro k w
    rw [hmoves.size]
    exact (hmono k w).trans (hcounts.tickets k w)
  · intro p s w
    exact (hmoves.votes_le hstatic hok.once hodd hsmall hcounts.tickets hviews hmono p s w).trans
      (hcounts.votes p s w)
  · intro r q x
    exact hmoves.answers_le hstatic hok.once hsmall hok.nonces r q x (hcounts.answers r q x)

theorem Counts.answers_of_local (hcounts : Counts c) {i : Nat} {s' : ReplicaState}
    {q' : List InboundMessage} {effs : List Effect} (hlocal : Local c c' i s' q' effs)
    (done : List InboundMessage) (hqueue : c.queue i = done ++ q')
    (hmail : ∀ eff ∈ effs, ∀ m, eff.message? = some m →
      m.header.command ≠ .recovery ∧ m.header.command ≠ .recoveryResponse)
    (hresponses : s'.recoveryResponses = (c.state i).recoveryResponses
      ∨ s'.recoveryResponses = []) (r q : Nat) (x : UInt128) :
    c'.answers r q x ≤ if q ≠ r ∧ x ∈ c'.nonces then 1 else 0 :=
  (hlocal.answers_le done hqueue hmail (sublist_of_same_or_nil hresponses) r q x).trans
    ((hcounts.answers r q x).trans (expected_mono hlocal.trace_subset r q x))

/-- The books balance after a step of one replica that hands out no tickets and casts no
vote. -/
theorem Counts.of_local (hcounts : Counts c) {i : Nat} {s' : ReplicaState}
    {q' : List InboundMessage} {effs : List Effect} (hlocal : Local c c' i s' q' effs)
    (done : List InboundMessage) (hqueue : c.queue i = done ++ q')
    (hview : (c.state i).view ≤ s'.view)
    (hmail : ∀ eff ∈ effs, ∀ m, eff.message? = some m →
      m.header.command ≠ .startViewChange ∧ m.header.command ≠ .doViewChange)
    (hheld : ∀ w, held s' w ≤ held (c.state i) w)
    (hreceived : s'.doViewChangeReceived = (c.state i).doViewChangeReceived
      ∨ s'.doViewChangeReceived = [])
    (hanswers : ∀ r q x, c'.answers r q x ≤ if q ≠ r ∧ x ∈ c'.nonces then 1 else 0) :
    Counts c' := by
  have hviews : ∀ j, (c.state j).view ≤ (c'.state j).view :=
    hlocal.state_rel (P := fun s t => s.view ≤ t.view) (fun _ => Nat.le_refl _) hview
  have htickets : ∀ k w, c'.tickets k w ≤ c.tickets k w := fun k w =>
    hlocal.tickets_le done hqueue hviews (fun eff heff m hm => (hmail eff heff m hm).1)
      ((hheld w).trans (Nat.le_add_right ..)) k
  refine ⟨fun k w => hlocal.size ▸ (htickets k w).trans (hcounts.tickets k w), ?_, hanswers⟩
  intro p s w
  exact (hlocal.votes_le done hqueue (fun eff heff m hm => (hmail eff heff m hm).2)
    (sublist_of_same_or_nil hreceived) (htickets s w) p).trans (hcounts.votes p s w)

/-- What a replica loses with its state and its queue is no longer counted. -/
theorem Counts.of_reset (hcounts : Counts c) {i : Nat} (hsize : c'.size = c.size)
    (hne : ∀ j, j ≠ i → c'.state j = c.state j) (hview : (c.state i).view ≤ (c'.state i).view)
    (hheld : ∀ w, held (c'.state i) w ≤ held (c.state i) w)
    (hvotes : (c'.state i).doViewChangeReceived = (c.state i).doViewChangeReceived
      ∨ (c'.state i).doViewChangeReceived = [])
    (hresponses : (c'.state i).recoveryResponses = (c.state i).recoveryResponses
      ∨ (c'.state i).recoveryResponses = [])
    (htrace : c'.trace = c.trace)
    (hpend : ∀ j, c'.pend j = if j = i then [] else c.pend j) : Counts c' := by
  have hviews : ∀ j, (c.state j).view ≤ (c'.state j).view := by
    intro j
    by_cases hj : j = i
    · exact hj ▸ hview
    · rw [hne j hj]
  have hpending : ∀ k kind, c'.pending k kind ≤ c.pending k kind := by
    intro k kind
    rw [pending, hpend]
    split
    · exact Nat.zero_le _
    · exact Nat.le_refl _
  have hcollected : ∀ {kind : VsrMessage → Bool} {l l' : List VsrMessage}, l' = l ∨ l' = [] →
      l'.countP kind ≤ l.countP kind := by
    intro kind l l' hl
    have hsub := sublist_of_same_or_nil (r := []) hl
    rw [List.append_nil] at hsub
    exact hsub.countP_le
  have htickets : ∀ k w, c'.tickets k w ≤ c.tickets k w := by
    intro k w
    have hbehind := behind_mono hsize hviews w
    have hpended := hpending k (isStartViewChange w)
    by_cases hk : k = i
    · subst hk
      have := hheld w
      rw [Cluster.tickets, Cluster.tickets]
      omega
    · rw [Cluster.tickets, Cluster.tickets, hne k hk]
      omega
  refine ⟨fun k w => hsize ▸ (htickets k w).trans (hcounts.tickets k w), ?_, ?_⟩
  · intro p s w
    have hballot := ballot_mono (n := (c.size - 1) / 2 + 1) (htickets s w)
    have hpended := hpending p (isDoViewChange w s)
    have hreceived : (c'.state p).doViewChangeReceived.countP (isDoViewChange w s)
        ≤ (c.state p).doViewChangeReceived.countP (isDoViewChange w s) := by
      by_cases hp : p = i
      · subst hp
        exact hcollected hvotes
      · rw [hne p hp]
    have hone := hcounts.votes p s w
    rw [Cluster.votes] at hone
    rw [Cluster.votes, hsize]
    omega
  · intro r q x
    have hrequest := hpending q (isRecovery x r)
    have hresponse := hpending r (isRecoveryResponse x q)
    have hreceived : (c'.state r).recoveryResponses.countP (isRecoveryResponse x q)
        ≤ (c.state r).recoveryResponses.countP (isRecoveryResponse x q) := by
      by_cases hr : r = i
      · subst hr
        exact hcollected hresponses
      · rw [hne r hr]
    have hone := hcounts.answers r q x
    rw [Cluster.answers] at hone
    rw [nonces, htrace, ← nonces, Cluster.answers]
    omega

/-! ## What the counts are for -/

theorem countP_le_pending {i : Nat} {im : InboundMessage} {rest : List InboundMessage}
    (hqueue : c.queue i = im :: rest) (kind : VsrMessage → Bool) :
    [im.message].countP kind ≤ c.pending i kind := by
  rw [List.countP_singleton, pending, pend, hqueue, List.countP_append, List.countP_cons]
  omega

/-- Messages of a kind that names its sender, at most one of each sender. -/
theorem nodup_replicas {l : List VsrMessage} (kind : Nat → VsrMessage → Bool)
    (hkind : ∀ m ∈ l, kind m.header.replica m = true) (hcount : ∀ s, l.countP (kind s) ≤ 1) :
    (l.map (·.header.replica)).Nodup := by
  rw [List.nodup_iff_count_le_one]
  intro s
  rw [List.count, List.countP_map]
  refine (List.countP_mono_left ?_).trans (hcount s)
  intro m hm hs
  have hs : m.header.replica = s := by simpa using hs
  exact hs ▸ hkind m hm

/-- The votes a new primary counts come from different replicas. -/
theorem nodup_votes (hone : ∀ p s w, c.votes p s w ≤ 1) (hstatic : Static c) {i : Nat}
    {im : InboundMessage} {rest : List InboundMessage} (hqueue : c.queue i = im :: rest)
    (hlt : i < 2 ^ 8) {s₁ : ReplicaState} {d : VsrMessage}
    (hcollect : CollectsVote (c.state i) im s₁ d)
    (hvotes : ∀ m ∈ (c.state i).doViewChangeReceived,
      m.header.command = .doViewChange ∧ m.header.view = (c.state i).view) :
    ((s₁.doViewChangeReceived ++ [d]).map (·.header.replica)).Nodup := by
  have hsame : s₁.doViewChangeReceived = (c.state i).doViewChangeReceived := by
    cases hcollect <;> rfl
  have hd := hcollect.header
  rw [hsame]
  refine nodup_replicas (isDoViewChange (c.state i).view) ?_ ?_
  · intro m hm
    rcases List.mem_append.mp hm with hm | hm
    · simp [isDoViewChange, hvotes m hm]
    · rw [List.mem_singleton.mp hm]
      simp [isDoViewChange, hd]
  · intro s
    have hle := hone i s (c.state i).view
    rw [Cluster.votes] at hle
    rw [List.countP_append]
    cases hcollect with
    | received hcmd hview hst hprimary =>
        have := countP_le_pending hqueue (isDoViewChange (c.state i).view s)
        omega
    | own hcmd hview hst hquorum hprimary =>
        rw [List.countP_singleton]
        split
        · rename_i hmine
          -- it still has the tickets for the vote it is about to cast
          obtain rfl : i = s := by
            simp only [isDoViewChange, doViewChangeMessage, Bool.and_eq_true, beq_iff_eq,
              hstatic.id, u8_eq hlt] at hmine
            exact hmine.2
          have hticket := countP_le_pending hqueue (isStartViewChange (c.state i).view)
          rw [List.countP_singleton, if_pos (by simp [isStartViewChange, hcmd, hview])] at hticket
          have hinsert := Finset.card_insert_le im.message.header.replica
            (c.state i).startViewChangeReceived
          have hheld : held (c.state i) (c.state i).view
              = (c.state i).startViewChangeReceived.card := if_pos ⟨rfl, hst⟩
          rw [hstatic.f] at hquorum
          rw [if_pos (by rw [Cluster.tickets]; omega)] at hle
          omega
        · omega

/-- The responses a recovering replica counts come from different replicas,
and none from itself. -/
theorem nodup_responses
    (hone : ∀ r q x, c.answers r q x ≤ if q ≠ r ∧ x ∈ c.nonces then 1 else 0) {i : Nat}
    {im : InboundMessage} {rest : List InboundMessage} (hqueue : c.queue i = im :: rest)
    {x : UInt128}
    (hresponses : ∀ m ∈ (c.state i).recoveryResponses ++ [im.message],
      isRecoveryResponse x m.header.replica m = true) :
    (((c.state i).recoveryResponses ++ [im.message]).map (·.header.replica)).Nodup
      ∧ ∀ m ∈ (c.state i).recoveryResponses ++ [im.message], m.header.replica ≠ i := by
  have hcount : ∀ q, ((c.state i).recoveryResponses ++ [im.message]).countP
      (isRecoveryResponse x q) ≤ if q ≠ i ∧ x ∈ c.nonces then 1 else 0 := by
    intro q
    have hle := hone i q x
    have := countP_le_pending hqueue (isRecoveryResponse x q)
    rw [Cluster.answers] at hle
    rw [List.countP_append]
    omega
  refine ⟨nodup_replicas _ hresponses fun q => (hcount q).trans ?_, ?_⟩
  · split <;> omega
  · intro m hm hi
    have hzero := hcount i
    rw [if_neg fun h => h.1 rfl] at hzero
    have := List.countP_eq_zero.mp (Nat.le_zero.mp hzero) m hm
    exact this (hi ▸ hresponses m hm)

end Cluster

end VsrKv
