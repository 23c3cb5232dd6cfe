import VsrKv.Viewstamped.Protocol

/-!
# Agreement within a view

`Inv` holds in every state the protocol reaches, recoveries included. Its
heart is `active`: a log held in a view is a prefix of that view's log and
has all of its base. The rest is there to keep it so, above all that a
primary pushed into recovery never comes back in the view it led
(`recover_view`).

`Inv.of_frame` says once what a step at one member owes the invariant;
each transition then only accounts for the member that moves.
-/

namespace Viewstamped

variable {ι E K : Type}

/-! ## The invariant -/

variable [DecidableEq ι]

/-- Why a recovering member will not come back with less than its view: `f`
others have reached a view `t` at least as high, higher if the member is
itself the primary, and have not answered from a lower one. The primary's
own answer, if it comes from the member's view, covers the member's log. -/
structure Evidence (C : Config ι) (a : State ι E K) (i : ι) : Prop where
  others : ∃ (t : Nat) (D : Finset ι), D ⊆ C.members.erase i ∧ C.f ≤ D.card
    ∧ (a.node i).view ≤ t ∧ (i = C.primary (a.node i).view → (a.node i).view < t)
    ∧ ∀ j ∈ D, t ≤ (a.node j).view ∧ ∀ v l, a.response j (a.node i).nonce v l → t ≤ v
  primary : ∀ v l, a.response (C.primary (a.node i).view) (a.node i).nonce v l →
    (a.node i).view ≤ v ∧ (v = (a.node i).view → (a.node i).log.length ≤ l.length)

structure Inv (C : Config ι) (a : State ι E K) : Prop where
  base_zero : a.base 0 = some []
  unstarted : ∀ v, a.base v = none → a.viewLog v = []
  base_le : ∀ v b, a.base v = some b → b <+: a.viewLog v
  chain : ∀ v b, a.base (v + 1) = some b → Holds a v b
  quorum : ∀ v b, a.base v = some b → ∃ D, C.Quorum D ∧ ∀ s ∈ D, v ≤ (a.node s).view
  primary : ∀ v b, a.base v = some b → v < (a.node (C.primary v)).view
    ∨ (a.node (C.primary v)).view = v ∧ (a.node (C.primary v)).status ≠ .changing
      ∧ (a.node (C.primary v)).log = a.viewLog v
  active : ∀ i ∈ C.members, (a.node i).status ≠ .changing → Holds a (a.node i).view (a.node i).log
  changing : ∀ i ∈ C.members, (a.node i).status = .changing →
    a.vote i (a.node i).view (a.node i).log
  vote : ∀ i w l, a.vote i w l → ∃ v, w = v + 1 ∧ w ≤ (a.node i).view ∧ Holds a v l
  response : ∀ i x v l, a.response i x v l → v ≤ (a.node i).view ∧ Holds a v l
  recovering : ∀ i ∈ C.members, (a.node i).status = .recovering → Evidence C a i

def initial (x : K) : State ι E K where
  node _ := { view := 0, status := .normal, log := [], nonce := x }
  viewLog _ := []
  base v := if v = 0 then some [] else none
  promise _ _ := 0
  vote _ _ _ := False
  response _ _ _ _ := False

theorem inv_initial (C : Config ι) (x : K) : Inv C (initial (E := E) x) where
  base_zero := rfl
  unstarted _ _ := rfl
  base_le v b h := by
    simp only [initial] at h
    split at h
    · cases h; exact List.nil_prefix
    · cases h
  chain v b h := by simp [initial] at h
  quorum v b h := by
    simp only [initial] at h
    split at h
    · rename_i hv
      exact ⟨C.members, C.members_quorum, fun s _ => by simp [hv]⟩
    · cases h
  primary v b h := by
    simp only [initial] at h
    split at h
    · rename_i hv
      exact Or.inr ⟨hv.symm, by simp [initial], rfl⟩
    · cases h
  active i _ _ := ⟨[], rfl, List.nil_prefix, List.nil_prefix⟩
  changing i _ h := by simp [initial] at h
  vote i w l h := h.elim
  response i x v l h := h.elim
  recovering i _ h := by simp [initial] at h

variable {C : Config ι} {a a' : State ι E K} {i : ι}

/-- What a step at `i` leaves alone. -/
structure Frame (a a' : State ι E K) (i : ι) : Prop where
  ext : Extends a a'
  node : ∀ j, j ≠ i → a'.node j = a.node j
  view : (a.node i).view ≤ (a'.node i).view

theorem Frame.view_le (h : Frame a a' i) (j : ι) : (a.node j).view ≤ (a'.node j).view := by
  by_cases hj : j = i
  · subst hj; exact h.view
  · rw [h.node j hj]

theorem Evidence.frame (h : Frame a a' i) (hresponse : a'.response = a.response) {j : ι}
    (hj : j ≠ i) (he : Evidence C a j) : Evidence C a' j := by
  obtain ⟨⟨t, D, hD, hcard, hle, hlt, hall⟩, hprimary⟩ := he
  refine ⟨⟨t, D, hD, hcard, ?_, ?_, fun k hk => ⟨?_, ?_⟩⟩, ?_⟩
  · rw [h.node j hj]; exact hle
  · rw [h.node j hj]; exact hlt
  · exact (hall k hk).1.trans (h.view_le k)
  · rw [h.node j hj, hresponse]; exact (hall k hk).2
  · rw [h.node j hj, hresponse]; exact hprimary

/-- The condition on `i` under which view `v` has its primary's log. -/
def Leads (a : State ι E K) (i : ι) (v : Nat) : Prop :=
  (a.node i).view = v ∧ (a.node i).status ≠ .changing ∧ (a.node i).log = a.viewLog v

/-- The step lemma: a step at `i` that records no response keeps the
invariant if what it makes of `i`, and the view it starts, if any, are in
order. -/
theorem Inv.of_frame (h : Inv C a) (fr : Frame a a' i) (hresponse : a'.response = a.response)
    (hbase : ∀ v b, a'.base v = some b → a.base v = some b
      ∨ i = C.primary v ∧ Leads a' i v ∧ b <+: a'.viewLog v
        ∧ (∃ D, C.Quorum D ∧ ∀ s ∈ D, v ≤ (a.node s).view) ∧ ∃ u, v = u + 1 ∧ Holds a u b)
    (hviewLog : ∀ v, a'.viewLog v = a.viewLog v
      ∨ i = C.primary v ∧ Leads a' i v ∧ a'.base v ≠ none)
    (hprimary : ∀ v, i = C.primary v → Leads a i v →
      v < (a'.node i).view ∨ Leads a' i v)
    (hactive : (a'.node i).status ≠ .changing → Holds a' (a'.node i).view (a'.node i).log)
    (hchanging : (a'.node i).status = .changing → a'.vote i (a'.node i).view (a'.node i).log)
    (hvote : ∀ j w l, a'.vote j w l → a.vote j w l
      ∨ j = i ∧ ∃ v, w = v + 1 ∧ w ≤ (a'.node i).view ∧ Holds a v l)
    (hrecovering : (a'.node i).status = .recovering → Evidence C a' i) : Inv C a' where
  base_zero := fr.ext.base 0 [] h.base_zero
  unstarted v hv := by
    rcases hviewLog v with hlog | ⟨-, -, hsome⟩
    · rw [hlog]
      refine h.unstarted v ?_
      cases hb : a.base v with
      | none => rfl
      | some b => rw [fr.ext.base v b hb] at hv; cases hv
    · exact absurd hv hsome
  base_le v b hb := by
    rcases hbase v b hb with hb | ⟨-, -, hle, -⟩
    · exact (h.base_le v b hb).trans (fr.ext.viewLog v)
    · exact hle
  chain v b hb := by
    rcases hbase (v + 1) b hb with hb | ⟨-, -, -, -, u, hu, hholds⟩
    · exact (h.chain v b hb).mono fr.ext
    · obtain rfl : v = u := by omega
      exact hholds.mono fr.ext
  quorum v b hb := by
    have hquorum : ∃ D, C.Quorum D ∧ ∀ s ∈ D, v ≤ (a.node s).view := by
      rcases hbase v b hb with hb | ⟨-, -, -, hD, -⟩
      · exact h.quorum v b hb
      · exact hD
    obtain ⟨D, hD, hall⟩ := hquorum
    exact ⟨D, hD, fun s hs => (hall s hs).trans (fr.view_le s)⟩
  primary v b hb := by
    by_cases hi : C.primary v = i
    · rcases hbase v b hb with hb | ⟨-, hleads, -⟩
      · rcases h.primary v b hb with hlt | hleads
        · exact Or.inl (hlt.trans_le (fr.view_le _))
        · rw [hi] at hleads ⊢
          exact hprimary v hi.symm hleads
      · rw [hi]; exact Or.inr hleads
    · have hb : a.base v = some b :=
        (hbase v b hb).resolve_right fun hnew => hi hnew.1.symm
      have hlog : a'.viewLog v = a.viewLog v :=
        (hviewLog v).resolve_right fun hnew => hi hnew.1.symm
      rw [fr.node _ hi, hlog]
      exact h.primary v b hb
  active j hj hst := by
    by_cases hji : j = i
    · subst hji; exact hactive hst
    · rw [fr.node j hji] at hst ⊢
      exact (h.active j hj hst).mono fr.ext
  changing j hj hst := by
    by_cases hji : j = i
    · subst hji; exact hchanging hst
    · rw [fr.node j hji] at hst ⊢
      exact fr.ext.vote _ _ _ (h.changing j hj hst)
  vote j w l hv := by
    rcases hvote j w l hv with hv | ⟨rfl, v, rfl, hle, hholds⟩
    · obtain ⟨v, rfl, hle, hholds⟩ := h.vote j w l hv
      exact ⟨v, rfl, hle.trans (fr.view_le j), hholds.mono fr.ext⟩
    · exact ⟨v, rfl, hle, hholds.mono fr.ext⟩
  response j x v l hr := by
    rw [hresponse] at hr
    obtain ⟨hle, hholds⟩ := h.response j x v l hr
    exact ⟨hle.trans (fr.view_le j), hholds.mono fr.ext⟩
  recovering j hj hst := by
    by_cases hji : j = i
    · subst hji; exact hrecovering hst
    · rw [fr.node j hji] at hst
      exact (h.recovering j hj hst).frame fr hresponse hji

/-! ## Each step keeps it -/

theorem prefix_concat_of_getElem? {l l' : List E} {e : E} (h : l <+: l')
    (he : l'[l.length]? = some e) : l ++ [e] <+: l' := by
  obtain ⟨t, rfl⟩ := h
  rw [List.getElem?_append_right (Nat.le_refl _), Nat.sub_self] at he
  obtain ⟨t', rfl⟩ : ∃ t', t = e :: t' := by
    cases t with
    | nil => simp at he
    | cons x t' => exact ⟨t', by simpa using he⟩
  exact ⟨t', by simp⟩

theorem frame_propose (a : State ι E K) (i : ι) (e : E) : Frame a (a.propose i e) i where
  ext :=
    { viewLog := fun v => by
        by_cases hv : v = (a.node i).view
        · subst hv; simp [State.propose]
        · simp [State.propose, State.set, hv]
      base := fun _ _ h => h
      promise := fun j v => le_raise a i _ _ j v
      vote := fun _ _ _ h => h
      response := fun _ _ _ _ h => h }
  node j hj := by simp [State.propose, State.set, hj]
  view := by simp [State.propose, State.set]

theorem frame_accept (a : State ι E K) (i : ι) (e : E) : Frame a (a.accept i e) i where
  ext := { Extends.refl a with promise := fun j v => le_raise a i _ _ j v }
  node j hj := by simp [State.accept, State.set, hj]
  view := by simp [State.accept, State.set]

theorem frame_enterView (a : State ι E K) (i : ι) : Frame a (a.enterView i) i where
  ext := { Extends.refl a with vote := fun _ _ _ h => Or.inl h }
  node j hj := by simp [State.enterView, State.set, hj]
  view := by simp [State.enterView, State.set]

theorem frame_adopt (a : State ι E K) (i : ι) (l : List E) : Frame a (a.adopt i l) i where
  ext := { Extends.refl a with promise := fun j v => le_raise a i _ _ j v }
  node j hj := by simp [State.adopt, State.set, hj]
  view := by simp [State.adopt, State.set]

theorem frame_set (a : State ι E K) (i : ι) {n : Node E K} (hview : (a.node i).view ≤ n.view) :
    Frame a (a.set i n) i where
  ext := { Extends.refl a with }
  node j hj := by simp [State.set, hj]
  view := by simpa [State.set] using hview

/-- A primary in normal operation holds all of its view's log. -/
theorem Inv.leads (h : Inv C a) (hst : (a.node i).status = .normal)
    (hp : i = C.primary (a.node i).view) : Leads a i (a.node i).view := by
  have hmem : i ∈ C.members := hp ▸ C.primary_mem _
  obtain ⟨b, hb, -⟩ := h.active i hmem (by simp [hst])
  have hprimary := h.primary _ b hb
  rw [← hp] at hprimary
  exact hprimary.resolve_left (lt_irrefl _)

theorem Inv.propose (h : Inv C a) {e : E} (hst : (a.node i).status = .normal)
    (hp : i = C.primary (a.node i).view) : Inv C (a.propose i e) := by
  have hmem : i ∈ C.members := hp ▸ C.primary_mem _
  obtain ⟨b, hb, hbl, hlog⟩ := h.active i hmem (by simp [hst])
  have hleads := h.leads hst hp
  have hleads' : Leads (a.propose i e) i (a.node i).view := by
    refine ⟨by simp [State.propose, State.set], by simp [State.propose, State.set, hst], ?_⟩
    simp [State.propose, State.set, hleads.2.2]
  refine h.of_frame (frame_propose a i e) rfl (fun v b hb => Or.inl hb) ?_
    ?_ ?_ ?_ (fun j w l hv => Or.inl hv) ?_
  · intro v
    by_cases hv : v = (a.node i).view
    · subst hv
      exact Or.inr ⟨hp, hleads', by simp [State.propose, State.set, hb]⟩
    · exact Or.inl (by simp [State.propose, State.set, hv])
  · intro v _ hlead
    rw [← hlead.1]
    exact Or.inr hleads'
  · intro _
    rw [hleads'.1, hleads'.2.2]
    exact ⟨b, hb, (hbl.trans hlog).trans ((frame_propose a i e).ext.viewLog _), List.prefix_rfl⟩
  · intro hch
    exact absurd hch hleads'.2.1
  · intro hrec
    simp [State.propose, State.set, hst] at hrec

theorem Inv.accept (h : Inv C a) {e : E} (hi : i ∈ C.members)
    (hst : (a.node i).status = .normal)
    (he : (a.viewLog (a.node i).view)[(a.node i).log.length]? = some e) :
    Inv C (a.accept i e) := by
  obtain ⟨b, hb, hbl, hlog⟩ := h.active i hi (by simp [hst])
  refine h.of_frame (frame_accept a i e) rfl (fun v b hb => Or.inl hb) (fun v => Or.inl rfl)
    ?_ ?_ ?_ (fun j w l hv => Or.inl hv) ?_
  · intro v _ hlead
    -- the primary holds all of its view's log, so it has nothing to accept
    rw [hlead.1, hlead.2.2] at he
    simp at he
  · intro _
    have hlog' := prefix_concat_of_getElem? hlog he
    exact ⟨b, by simpa [State.accept, State.set] using hb,
      by simpa [State.accept, State.set] using hbl.trans (List.prefix_append _ _),
      by simpa [State.accept, State.set] using hlog'⟩
  · intro hch
    simp [State.accept, State.set, hst] at hch
  · intro hrec
    simp [State.accept, State.set, hst] at hrec

theorem Inv.enterView (h : Inv C a) (hi : i ∈ C.members) (hst : (a.node i).status = .normal) :
    Inv C (a.enterView i) := by
  have hholds := h.active i hi (by simp [hst])
  have hview : ((a.enterView i).node i).view = (a.node i).view + 1 := by
    simp [State.enterView, State.set]
  refine h.of_frame (frame_enterView a i) rfl (fun v b hb => Or.inl hb) (fun v => Or.inl rfl)
    ?_ ?_ ?_ ?_ ?_
  · intro v _ hlead
    rw [hview, ← hlead.1]
    exact Or.inl (Nat.lt_succ_self _)
  · intro hact
    simp [State.enterView, State.set] at hact
  · intro _
    exact Or.inr ⟨rfl, hview, by simp [State.enterView, State.set]⟩
  · intro j w l hv
    rcases hv with hv | ⟨rfl, rfl, rfl⟩
    · exact Or.inl hv
    · exact Or.inr ⟨rfl, _, rfl, hview.ge, hholds⟩
  · intro hrec
    simp [State.enterView, State.set] at hrec

theorem base_none_of_changing (h : Inv C a) (hst : (a.node i).status = .changing)
    (hp : i = C.primary (a.node i).view) : a.base (a.node i).view = none := by
  cases hb : a.base (a.node i).view with
  | none => rfl
  | some b =>
      have hprimary := h.primary _ b hb
      rw [← hp] at hprimary
      rcases hprimary with hlt | hleads
      · exact absurd hlt (lt_irrefl _)
      · exact absurd hst hleads.2.1

theorem frame_startView (h : Inv C a) (hst : (a.node i).status = .changing)
    (hp : i = C.primary (a.node i).view) (l : List E) : Frame a (a.startView i l) i where
  ext :=
    { Extends.refl a with
      viewLog := fun v => by
        by_cases hv : v = (a.node i).view
        · subst hv
          rw [h.unstarted _ (base_none_of_changing h hst hp)]
          exact List.nil_prefix
        · simp [State.startView, State.set, hv]
      base := fun v b hb => by
        have hv : v ≠ (a.node i).view := by
          rintro rfl
          rw [base_none_of_changing h hst hp] at hb
          cases hb
        simpa [State.startView, State.set, hv] using hb }
  node j hj := by simp [State.startView, State.set, hj]
  view := by simp [State.startView, State.set]

theorem Inv.startView (h : Inv C a) {D : Finset ι} {l : List E}
    (hst : (a.node i).status = .changing) (hp : i = C.primary (a.node i).view)
    (hD : C.Quorum D)
    (hvotes : ∀ s ∈ D, ∃ l', a.vote s (a.node i).view l' ∧ l'.length ≤ l.length)
    (hl : ∃ s ∈ D, a.vote s (a.node i).view l) : Inv C (a.startView i l) := by
  have hfr := frame_startView h hst hp l
  have hbase : (a.startView i l).base (a.node i).view = some l := by simp [State.startView]
  have hleads : Leads (a.startView i l) i (a.node i).view := by
    refine ⟨by simp [State.startView, State.set], by simp [State.startView, State.set], ?_⟩
    simp [State.startView, State.set]
  have hlog : (a.startView i l).viewLog (a.node i).view = l := by simp [State.startView]
  have hle : l <+: (a.startView i l).viewLog (a.node i).view := by rw [hlog]
  refine h.of_frame hfr rfl ?_ ?_ ?_ ?_ ?_ (fun j w l hv => Or.inl hv) ?_
  · intro v b hb
    by_cases hv : v = (a.node i).view
    · subst hv
      rw [hbase] at hb
      cases hb
      obtain ⟨s, hs, hvote⟩ := hl
      obtain ⟨u, hu, -, hholds⟩ := h.vote s _ l hvote
      refine Or.inr ⟨hp, hleads, hle, ⟨D, hD, ?_⟩, u, hu, hholds⟩
      intro s hs
      obtain ⟨l', hvote', -⟩ := hvotes s hs
      obtain ⟨_, -, hreached, -⟩ := h.vote s _ l' hvote'
      exact hreached
    · exact Or.inl (by simpa [State.startView, State.set, hv] using hb)
  · intro v
    by_cases hv : v = (a.node i).view
    · subst hv
      exact Or.inr ⟨hp, hleads, by simp [hbase]⟩
    · exact Or.inl (by simp [State.startView, State.set, hv])
  · intro v _ hlead
    exact absurd hst hlead.2.1
  · intro _
    rw [hleads.1, hleads.2.2, hlog]
    exact ⟨l, hbase, List.prefix_rfl, hle⟩
  · intro hch
    exact absurd hch hleads.2.1
  · intro hrec
    simp [State.startView, State.set] at hrec

theorem Inv.adopt (h : Inv C a) {l : List E} (hst : (a.node i).status = .changing)
    (hl : a.base (a.node i).view = some l) : Inv C (a.adopt i l) := by
  refine h.of_frame (frame_adopt a i l) rfl (fun v b hb => Or.inl hb) (fun v => Or.inl rfl)
    ?_ ?_ ?_ (fun j w l hv => Or.inl hv) ?_
  · intro v _ hlead
    exact absurd hst hlead.2.1
  · intro _
    have hle := h.base_le _ l hl
    exact ⟨l, by simpa [State.adopt, State.set] using hl,
      by simp [State.adopt, State.set], by simpa [State.adopt, State.set] using hle⟩
  · intro hch
    simp [State.adopt, State.set] at hch
  · intro hrec
    simp [State.adopt, State.set] at hrec

theorem Inv.enterRecovery (h : Inv C a) {x : K} (hi : i ∈ C.members)
    (hst : (a.node i).status = .normal) (hfresh : ∀ j v l, ¬a.response j x v l)
    (hbehind : i ≠ C.primary (a.node i).view
      ∨ ∃ w b, (a.node i).view < w ∧ a.base w = some b) : Inv C (a.enterRecovery i x) := by
  obtain ⟨b, hb, hholds⟩ := h.active i hi (by simp [hst])
  -- the view that others are known to have reached
  obtain ⟨t, b', hb', hle, hlt⟩ : ∃ t b', a.base t = some b' ∧ (a.node i).view ≤ t
      ∧ (i = C.primary (a.node i).view → (a.node i).view < t) := by
    rcases hbehind with hne | ⟨w, b', hlt, hb'⟩
    · exact ⟨_, b, hb, Nat.le_refl _, fun hp => absurd hp hne⟩
    · exact ⟨w, b', hb', hlt.le, fun _ => hlt⟩
  obtain ⟨D, hD, hall⟩ := h.quorum t b' hb'
  have hview : ((a.enterRecovery i x).node i).view = (a.node i).view := by
    simp [State.enterRecovery, State.set]
  have hlog : ((a.enterRecovery i x).node i).log = (a.node i).log := by
    simp [State.enterRecovery, State.set]
  have hnonce : ((a.enterRecovery i x).node i).nonce = x := by
    simp [State.enterRecovery, State.set]
  have hfr : Frame a (a.enterRecovery i x) i := frame_set a i (Nat.le_refl _)
  refine h.of_frame hfr rfl (fun v b hb => Or.inl hb)
    (fun v => Or.inl rfl) (fun v _ hlead => Or.inr ?_) ?_ ?_
    (fun j w l hv => Or.inl hv)
    (fun _ => ⟨⟨t, D.erase i, ?_, ?_, ?_, ?_, fun j hj => ⟨?_, ?_⟩⟩, ?_⟩)
  · exact ⟨hview.trans hlead.1, by simp [State.enterRecovery, State.set], hlog.trans hlead.2.2⟩
  · intro _
    rw [hview, hlog]
    exact ⟨b, hb, hholds⟩
  · intro hch
    simp [State.enterRecovery, State.set] at hch
  · exact Finset.erase_subset_erase i hD.1
  · have := Finset.pred_card_le_card_erase (s := D) (a := i)
    have := hD.2
    omega
  · rw [hview]; exact hle
  · rw [hview]; exact hlt
  · exact (hall j (Finset.mem_of_mem_erase hj)).trans (hfr.view_le j)
  · rw [hnonce]
    exact fun v l hr => absurd hr (hfresh j v l)
  · rw [hnonce]
    exact fun v l hr => absurd hr (hfresh _ v l)

/-- A recovering member comes back in a view at least as high, and in a
higher one if it was the primary. -/
theorem recover_view (h : Inv C a) {R : Finset ι} {v : Nat} {l : List E} (hi : i ∈ C.members)
    (hst : (a.node i).status = .recovering) (hR : R ⊆ C.members.erase i)
    (hcard : C.f + 1 ≤ R.card)
    (hall : ∀ j ∈ R, ∃ v' l', a.response j (a.node i).nonce v' l'
      ∧ (v' < v ∨ v' = v ∧ l'.length ≤ l.length)) :
    (a.node i).view ≤ v ∧ (i = C.primary (a.node i).view → (a.node i).view < v) := by
  obtain ⟨t, D, hD, hDcard, hle, hlt, hDall⟩ := (h.recovering i hi hst).others
  obtain ⟨s, hsD, hsR⟩ := Config.inter_erase hi hD hDcard hR hcard
  obtain ⟨v', l', hr, hcmp⟩ := hall s hsR
  have ht := (hDall s hsD).2 v' l' hr
  have htv : t ≤ v := by omega
  exact ⟨hle.trans htv, fun hp => (hlt hp).trans_le htv⟩

theorem Inv.recover (h : Inv C a) {R : Finset ι} {v : Nat} {l : List E} (hi : i ∈ C.members)
    (hst : (a.node i).status = .recovering) (hR : R ⊆ C.members.erase i)
    (hcard : C.f + 1 ≤ R.card)
    (hall : ∀ j ∈ R, ∃ v' l', a.response j (a.node i).nonce v' l'
      ∧ (v' < v ∨ v' = v ∧ l'.length ≤ l.length))
    (hbest : ∃ j ∈ R, a.response j (a.node i).nonce v l) : Inv C (a.recover i v l) := by
  obtain ⟨hle, hlt⟩ := recover_view h hi hst hR hcard hall
  have hview : ((a.recover i v l).node i).view = v := by simp [State.recover, State.set]
  refine h.of_frame (frame_set a i hle) rfl (fun v b hb => Or.inl hb) (fun v => Or.inl rfl)
    (fun w hp hlead => Or.inl ?_) ?_ ?_ (fun j w l hv => Or.inl hv) ?_
  · obtain rfl := hlead.1
    rw [hview]
    exact hlt hp
  · intro _
    obtain ⟨j, -, hr⟩ := hbest
    obtain ⟨b, hb, hbl, hlv⟩ := (h.response j _ v l hr).2
    exact ⟨b, by simpa [State.recover, State.set] using hb,
      by simpa [State.recover, State.set] using hbl, by simpa [State.recover, State.set] using hlv⟩
  · intro hch
    simp [State.recover, State.set] at hch
  · intro hrec
    simp [State.recover, State.set] at hrec

theorem Inv.restart (h : Inv C a) (hview : (a.node i).view = 0)
    (hlog : (a.node i).log = []) : Inv C (a.restart i) := by
  refine h.of_frame (frame_set a i (Nat.le_refl _)) rfl (fun v b hb => Or.inl hb)
    (fun v => Or.inl rfl) (fun v _ hlead => Or.inr ?_) ?_ ?_
    (fun j w l hv => Or.inl hv) ?_
  · exact ⟨by simpa [State.restart, State.set] using hlead.1, by simp [State.restart, State.set],
      by simpa [State.restart, State.set] using hlead.2.2⟩
  · intro _
    refine ⟨[], ?_, List.nil_prefix, ?_⟩
    · simpa [State.restart, State.set, hview] using h.base_zero
    · simp [State.restart, State.set, hlog]
  · intro hch
    simp [State.restart, State.set] at hch
  · intro hrec
    simp [State.restart, State.set] at hrec

/-- A new response comes from the view the member is in, which is no lower
than any view a recovering member counts on it for. -/
theorem Inv.respond (h : Inv C a) {x : K} (hi : i ∈ C.members)
    (hst : (a.node i).status = .normal) : Inv C (a.respond i x) := by
  have hext := extends_respond a i x
  refine
    { base_zero := h.base_zero
      unstarted := h.unstarted
      base_le := h.base_le
      chain := h.chain
      quorum := h.quorum
      primary := h.primary
      active := h.active
      changing := h.changing
      vote := h.vote
      response := fun j y v l hr => ?_
      recovering := fun j hj (hrec : (a.node j).status = .recovering) => ?_ }
  · rcases hr with hr | ⟨rfl, rfl, rfl, rfl⟩
    · exact h.response j y v l hr
    · exact ⟨Nat.le_refl _, (h.active j hi (by simp [hst])).mono hext⟩
  · obtain ⟨⟨t, D, hD, hcard, hle, hlt, hall⟩, hprimary⟩ := h.recovering j hj hrec
    refine ⟨⟨t, D, hD, hcard, hle, hlt, fun k hk => ⟨(hall k hk).1, ?_⟩⟩, ?_⟩
    · intro v l hr
      rcases hr with hr | ⟨rfl, -, rfl, -⟩
      · exact (hall k hk).2 v l hr
      · exact (hall k hk).1
    · intro v l hr
      rcases hr with hr | ⟨hp, -, rfl, rfl⟩
      · exact hprimary v l hr
      · obtain ⟨b, hb, -, hlog⟩ := h.active j hj (by simp [hrec])
        have hlead := h.primary _ b hb
        change C.primary (a.node j).view = i at hp
        rw [hp] at hlead
        change (a.node j).view ≤ _ ∧ (_ = (a.node j).view → (a.node j).log.length ≤ _)
        rcases hlead with hlt | ⟨hview, -, hfull⟩
        · exact ⟨hlt.le, fun heq => absurd hlt (heq ▸ lt_irrefl _)⟩
        · exact ⟨hview.ge, fun _ => hfull ▸ hlog.length_le⟩

theorem Step.inv (hstep : Step C a a') (h : Inv C a) : Inv C a' := by
  cases hstep with
  | propose i e hst hp => exact h.propose hst hp
  | accept i e hi hst he => exact h.accept hi hst he
  | enterView i hi hst => exact h.enterView hi hst
  | startView i D l hst hp hD hvotes hl => exact h.startView hst hp hD hvotes hl
  | adopt i l hi hst hl => exact h.adopt hst hl
  | respond i x hi hst => exact h.respond hi hst
  | enterRecovery i x hi hst hfresh hbehind => exact h.enterRecovery hi hst hfresh hbehind
  | recover i R v l hi hst hR hcard hall hbest => exact h.recover hi hst hR hcard hall hbest
  | restart i hi hview hlog => exact h.restart hview hlog

/-- History grows and views never go back. -/
theorem Step.extends (hstep : Step C a a') (h : Inv C a) :
    Extends a a' ∧ ∀ j, (a.node j).view ≤ (a'.node j).view := by
  cases hstep with
  | propose i e hst hp =>
      have hfr := frame_propose a i e
      exact ⟨hfr.ext, hfr.view_le⟩
  | accept i e hi hst he =>
      have hfr := frame_accept a i e
      exact ⟨hfr.ext, hfr.view_le⟩
  | enterView i hi hst =>
      have hfr := frame_enterView a i
      exact ⟨hfr.ext, hfr.view_le⟩
  | startView i D l hst hp hD hvotes hl =>
      have hfr := frame_startView h hst hp l
      exact ⟨hfr.ext, hfr.view_le⟩
  | adopt i l hi hst hl =>
      have hfr := frame_adopt a i l
      exact ⟨hfr.ext, hfr.view_le⟩
  | respond i x hi hst => exact ⟨extends_respond a i x, fun _ => Nat.le_refl _⟩
  | enterRecovery i x hi hst hfresh hbehind =>
      have hfr : Frame a (a.enterRecovery i x) i := frame_set a i (Nat.le_refl _)
      exact ⟨hfr.ext, hfr.view_le⟩
  | recover i R v l hi hst hR hcard hall hbest =>
      have hfr : Frame a (a.recover i v l) i :=
        frame_set a i (recover_view h hi hst hR hcard hall).1
      exact ⟨hfr.ext, hfr.view_le⟩
  | restart i hi hview hlog =>
      have hfr : Frame a (a.restart i) i := frame_set a i (Nat.le_refl _)
      exact ⟨hfr.ext, hfr.view_le⟩

/-- The rule for properties of view logs that prefixes inherit: entries only
come in where a primary proposes one. -/
theorem Step.viewLog_induct {P : List E → Prop} (hle : ∀ {l l'}, l <+: l' → P l' → P l)
    (hinv : Inv C a) (hstep : Step C a a') (h : ∀ v, P (a.viewLog v))
    (hnew : ∀ i e, a' = a.propose i e → (a.node i).status = .normal →
      i = C.primary (a.node i).view → P ((a.node i).log ++ [e])) : ∀ v, P (a'.viewLog v) := by
  cases hstep with
  | propose i e hst hp =>
      intro v
      have hlog := (hinv.leads hst hp).2.2
      by_cases hv : v = (a.node i).view
      · subst hv
        simpa [State.propose, ← hlog] using hnew i e rfl hst hp
      · simpa [State.propose, hv] using h v
  | startView i D l hst hp hD hvotes hl =>
      intro v
      by_cases hv : v = (a.node i).view
      · subst hv
        -- the log a view starts with comes from a vote, and so from an earlier view
        obtain ⟨s, -, hvote⟩ := hl
        obtain ⟨u, -, -, b, -, -, hlu⟩ := hinv.vote s _ l hvote
        simpa [State.startView] using hle hlu (h u)
      · simpa [State.startView, hv] using h v
  | accept => exact h
  | enterView => exact h
  | adopt => exact h
  | respond => exact h
  | enterRecovery => exact h
  | recover => exact h
  | restart => exact h

end Viewstamped
