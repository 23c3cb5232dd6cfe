import VsrKv.Viewstamped.Logs

/-!
# What a quorum has promised is never lost

`Inv` is about logs within a view. To carry what a quorum has promised
into later views (`committed_base`) a second invariant is needed,
`Promises`, and that one holds only as long as no recovery ends in the
view it began in with a shorter log (`Keeps`). A cluster of three has no
such recovery (`Step.keeps_of_three`).
-/

namespace Viewstamped

variable {ι E K : Type}

variable {C : Config ι} {a a' : State ι E K} {i : ι}

/-! ## Promises -/

/-- A quorum has promised the first `n` entries of view `v`. -/
def Committed (C : Config ι) (a : State ι E K) (v n : Nat) : Prop :=
  ∃ Q, C.Quorum Q ∧ ∀ q ∈ Q, n ≤ a.promise q v

theorem Committed.mono (hext : Extends a a') {v n : Nat} (h : Committed C a v n) :
    Committed C a' v n := by
  obtain ⟨Q, hQ, hall⟩ := h
  exact ⟨Q, hQ, fun q hq => (hall q hq).trans (hext.promise q v)⟩

theorem Committed.le {v n m : Nat} (hm : m ≤ n) (h : Committed C a v n) : Committed C a v m := by
  obtain ⟨Q, hQ, hall⟩ := h
  exact ⟨Q, hQ, fun q hq => hm.trans (hall q hq)⟩

/-- No recovery that ends in the view it began in has cost the member part of
its log. -/
def Keeps (C : Config ι) (a a' : State ι E K) : Prop :=
  ∀ i ∈ C.members, (a.node i).status = .recovering → (a'.node i).view = (a.node i).view →
    (a.node i).log.length ≤ (a'.node i).log.length

/-- What a member has promised in a view it holds as long as it is in that
view, and when it votes for the next one. -/
structure Promises (C : Config ι) (a : State ι E K) : Prop where
  future : ∀ i v, (a.node i).view < v → a.promise i v = 0
  unfollowed : ∀ i ∈ C.members, (a.node i).status = .changing → a.promise i (a.node i).view = 0
  held : ∀ i ∈ C.members, (a.node i).status ≠ .changing →
    a.promise i (a.node i).view ≤ (a.node i).log.length
  vote : ∀ i v l, a.vote i (v + 1) l → a.promise i v ≤ l.length
  base : ∀ v b, a.base (v + 1) = some b →
    ∃ D, C.Quorum D ∧ ∀ s ∈ D, v + 1 ≤ (a.node s).view ∧ a.promise s v ≤ b.length

theorem promises_initial (C : Config ι) (x : K) : Promises C (initial (E := E) x) where
  future _ _ _ := rfl
  unfollowed _ _ _ := rfl
  held _ _ _ := Nat.le_refl _
  vote _ _ _ h := h.elim
  base v b h := by simp [initial] at h

/-! ## Each step keeps them -/

variable [DecidableEq ι]

/-- The step lemma for promises: only the member that moves promises, and
only in the view it is in afterwards. -/
theorem Promises.of_frame (h : Promises C a) (hinv : Inv C a) (fr : Frame a a' i)
    (hpromise : ∀ j v, a'.promise j v = a.promise j v
      ∨ j = i ∧ v = (a'.node i).view ∧ (a.node i).view = (a'.node i).view)
    (hunfollowed : (a'.node i).status = .changing → (a.node i).view < (a'.node i).view)
    (hheld : (a'.node i).status ≠ .changing →
      a'.promise i (a'.node i).view ≤ (a'.node i).log.length)
    (hvote : ∀ j w l, a'.vote j w l → a.vote j w l
      ∨ j = i ∧ w = (a.node i).view + 1 ∧ (a.node i).view < (a'.node i).view
        ∧ a.promise i (a.node i).view ≤ l.length)
    (hbase : ∀ v b, a'.base (v + 1) = some b → a.base (v + 1) = some b
      ∨ ∃ D, C.Quorum D ∧ ∀ s ∈ D, v + 1 ≤ (a.node s).view ∧ a.promise s v ≤ b.length) :
    Promises C a' := by
  -- a promise in a view the member has left, or not reached, is what it was
  have hold : ∀ j v, (a.node j).view ≠ v → a'.promise j v = a.promise j v := by
    intro j v hv
    rcases hpromise j v with heq | ⟨rfl, rfl, hsame⟩
    · exact heq
    · exact absurd hsame hv
  refine ⟨?_, ?_, ?_, ?_, ?_⟩
  · intro j v hv
    have hlt := (fr.view_le j).trans_lt hv
    rw [hold j v hlt.ne]
    exact h.future j v hlt
  · intro j hj hst
    by_cases hji : j = i
    · subst hji
      have hlt := hunfollowed hst
      rw [hold j _ hlt.ne]
      exact h.future j _ hlt
    · have heq : a'.promise j (a.node j).view = a.promise j (a.node j).view :=
        (hpromise j _).resolve_right fun hnew => hji hnew.1
      rw [fr.node j hji] at hst ⊢
      rw [heq]
      exact h.unfollowed j hj hst
  · intro j hj hst
    by_cases hji : j = i
    · subst hji; exact hheld hst
    · have heq : a'.promise j (a.node j).view = a.promise j (a.node j).view :=
        (hpromise j _).resolve_right fun hnew => hji hnew.1
      rw [fr.node j hji] at hst ⊢
      rw [heq]
      exact h.held j hj hst
  · intro j v l hv
    rcases hvote j _ l hv with hv | ⟨rfl, hw, hlt, hle⟩
    · obtain ⟨u, hu, hreached, -⟩ := hinv.vote j _ l hv
      rw [hold j v (by omega)]
      exact h.vote j v l hv
    · obtain rfl : v = (a.node j).view := by omega
      have heq : a'.promise j (a.node j).view = a.promise j (a.node j).view :=
        (hpromise j _).resolve_right fun hnew => by omega
      rw [heq]
      exact hle
  · intro v b hb
    have hD : ∃ D, C.Quorum D ∧ ∀ s ∈ D, v + 1 ≤ (a.node s).view ∧ a.promise s v ≤ b.length := by
      rcases hbase v b hb with hb | hD
      · exact h.base v b hb
      · exact hD
    obtain ⟨D, hquorum, hall⟩ := hD
    refine ⟨D, hquorum, ?_⟩
    intro s hs
    obtain ⟨hview, hle⟩ := hall s hs
    refine ⟨hview.trans (fr.view_le s), ?_⟩
    rw [hold s v (by omega)]
    exact hle

theorem raise_cases (a : State ι E K) (i : ι) (v k : Nat) (j : ι) (w : Nat) :
    a.raise i v k j w = a.promise j w ∨ j = i ∧ w = v := by
  unfold State.raise
  split
  · rename_i h; exact Or.inr h
  · exact Or.inl rfl

theorem raise_self_le {v k m : Nat} (hk : k ≤ m) (hp : a.promise i v ≤ m) :
    a.raise i v k i v ≤ m := by
  rw [State.raise, if_pos ⟨rfl, rfl⟩]
  exact max_le hp hk

/-- A member that is not changing views raises its promise in the view it is in. -/
theorem Promises.of_raise (h : Promises C a) (hinv : Inv C a) (fr : Frame a a' i) {k : Nat}
    (hraise : a'.promise = a.raise i (a.node i).view k)
    (hview : (a'.node i).view = (a.node i).view) (hst : (a'.node i).status ≠ .changing)
    (hk : k ≤ (a'.node i).log.length)
    (hheld : a.promise i (a.node i).view ≤ (a'.node i).log.length)
    (hvote : a'.vote = a.vote) (hbase : a'.base = a.base) : Promises C a' := by
  refine h.of_frame hinv fr ?_ (fun hch => absurd hch hst) ?_
    (fun j w l hv => Or.inl (hvote ▸ hv)) (fun v b hb => Or.inl (hbase ▸ hb))
  · intro j v
    rw [hraise]
    rcases raise_cases a i (a.node i).view k j v with heq | ⟨rfl, rfl⟩
    · exact Or.inl heq
    · exact Or.inr ⟨rfl, hview.symm, hview.symm⟩
  · intro _
    rw [hraise, hview]
    exact raise_self_le hk hheld

theorem Promises.step (h : Promises C a) (hinv : Inv C a) (hstep : Step C a a')
    (hkeeps : Keeps C a a') : Promises C a' := by
  cases hstep with
  | propose i e hst hp =>
      have hmem : i ∈ C.members := hp ▸ C.primary_mem _
      have hheld := h.held i hmem (by simp [hst])
      exact h.of_raise hinv (frame_propose a i e) rfl (by simp [State.propose, State.set])
        (by simp [State.propose, State.set, hst]) (by simp [State.propose, State.set])
        (by simpa [State.propose, State.set] using Nat.le_succ_of_le hheld) rfl rfl
  | accept i e hi hst he =>
      have hheld := h.held i hi (by simp [hst])
      exact h.of_raise hinv (frame_accept a i e) rfl (by simp [State.accept, State.set])
        (by simp [State.accept, State.set, hst]) (by simp [State.accept, State.set])
        (by simpa [State.accept, State.set] using Nat.le_succ_of_le hheld) rfl rfl
  | enterView i hi hst =>
      have hheld := h.held i hi (by simp [hst])
      have hview : ((a.enterView i).node i).view = (a.node i).view + 1 := by
        simp [State.enterView, State.set]
      refine h.of_frame hinv (frame_enterView a i) (fun j v => Or.inl rfl)
        (fun _ => by omega) ?_ ?_ (fun v b hb => Or.inl hb)
      · intro hact
        simp [State.enterView, State.set] at hact
      · intro j w l hv
        rcases hv with hv | ⟨rfl, rfl, rfl⟩
        · exact Or.inl hv
        · exact Or.inr ⟨rfl, rfl, by omega, hheld⟩
  | startView i D l hst hp hD hvotes hl =>
      have hmem : i ∈ C.members := hp ▸ C.primary_mem _
      have hzero := h.unfollowed i hmem hst
      refine h.of_frame hinv (frame_startView hinv hst hp l) (fun j v => Or.inl rfl)
        ?_ ?_ (fun j w l hv => Or.inl hv) ?_
      · intro hch
        simp [State.startView, State.set] at hch
      · intro _
        simp [State.startView, State.set, hzero]
      · intro v b hb
        by_cases hv : v + 1 = (a.node i).view
        · simp only [State.startView, hv, Function.update_self, Option.some.injEq] at hb
          subst hb
          refine Or.inr ⟨D, hD, ?_⟩
          intro s hs
          obtain ⟨l', hvote, hle⟩ := hvotes s hs
          rw [← hv] at hvote
          obtain ⟨u, hu, hreached, -⟩ := hinv.vote s _ l' hvote
          exact ⟨hreached, (h.vote s v l' hvote).trans hle⟩
        · exact Or.inl (by simpa [State.startView, State.set, hv] using hb)
  | adopt i l hi hst hl =>
      have hzero := h.unfollowed i hi hst
      exact h.of_raise hinv (frame_adopt a i l) rfl (by simp [State.adopt, State.set])
        (by simp [State.adopt, State.set]) (by simp [State.adopt, State.set])
        (by simp [hzero]) rfl rfl
  | respond i x hi hst => exact ⟨h.future, h.unfollowed, h.held, h.vote, h.base⟩
  | enterRecovery i x hi hst hfresh hbehind =>
      have hheld := h.held i hi (by simp [hst])
      refine h.of_frame hinv (frame_set a i (Nat.le_refl _)) (fun j v => Or.inl rfl)
        ?_ ?_ (fun j w l hv => Or.inl hv) (fun v b hb => Or.inl hb)
      · intro hch
        simp [State.enterRecovery, State.set] at hch
      · intro _
        simpa [State.enterRecovery, State.set] using hheld
  | recover i R v l hi hst hR hcard hall hbest =>
      have hheld := h.held i hi (by simp [hst])
      have hle := (recover_view hinv hi hst hR hcard hall).1
      have hlog : (a.node i).view = v → (a.node i).log.length ≤ l.length := fun hv => by
        simpa [State.recover, State.set] using
          hkeeps i hi hst (by simpa [State.recover, State.set] using hv.symm)
      refine h.of_frame hinv (frame_set a i hle) (fun j v => Or.inl rfl)
        ?_ ?_ (fun j w l hv => Or.inl hv) (fun v b hb => Or.inl hb)
      · intro hch
        simp [State.recover, State.set] at hch
      · intro _
        simp only [State.recover, State.set, Function.update_self]
        rcases hle.lt_or_eq with hlt | rfl
        · rw [h.future i v hlt]
          exact Nat.zero_le _
        · exact hheld.trans (hlog rfl)
  | restart i hi hview hlog =>
      have hzero : a.promise i 0 = 0 := by
        by_cases hst : (a.node i).status = .changing
        · exact hview ▸ h.unfollowed i hi hst
        · have hheld := h.held i hi hst
          rw [hview, hlog] at hheld
          simpa using hheld
      refine h.of_frame hinv (frame_set a i (Nat.le_refl _)) (fun j v => Or.inl rfl)
        ?_ ?_ (fun j w l hv => Or.inl hv) (fun v b hb => Or.inl hb)
      · intro hch
        simp [State.restart, State.set] at hch
      · intro _
        simp [State.restart, State.set, hview, hzero]

/-- With three members a recovering backup hears from all the others, the
primary among them, so it gets back at least what it had. -/
theorem Step.keeps_of_three (hC : C.f = 1) (hinv : Inv C a) (hstep : Step C a a') :
    Keeps C a a' := by
  intro j _ hrec hview
  cases hstep with
  | recover i R v l hi hst hR hcard hall hbest =>
      by_cases hji : j = i
      · subst hji
        obtain rfl : v = (a.node j).view := by
          simpa [State.recover, State.set] using hview
        have hnp : j ≠ C.primary (a.node j).view := fun hp =>
          absurd ((recover_view hinv hi hst hR hcard hall).2 hp) (lt_irrefl _)
        -- both other members have answered
        have hRall : R = C.members.erase j := by
          refine Finset.eq_of_subset_of_card_le hR ?_
          rw [Finset.card_erase_of_mem hi, C.card]
          omega
        have hmem : C.primary (a.node j).view ∈ R := by
          rw [hRall]
          exact Finset.mem_erase.mpr ⟨hnp.symm, C.primary_mem _⟩
        obtain ⟨v', l', hr, hcmp⟩ := hall _ hmem
        obtain ⟨hge, hcover⟩ := (hinv.recovering j hi hst).primary v' l' hr
        have hl : l'.length ≤ l.length := by omega
        have hl' := hcover (by omega)
        simpa [State.recover, State.set] using hl'.trans hl
      · exact le_of_eq (by simp [State.recover, State.set, hji])
  | propose i e hst hp =>
      have hji : j ≠ i := by rintro rfl; simp [hst] at hrec
      exact le_of_eq (by simp [State.propose, State.set, hji])
  | accept i e hi hst he =>
      have hji : j ≠ i := by rintro rfl; simp [hst] at hrec
      exact le_of_eq (by simp [State.accept, State.set, hji])
  | startView i D l hst hp hD hvotes hl =>
      have hji : j ≠ i := by rintro rfl; simp [hst] at hrec
      exact le_of_eq (by simp [State.startView, State.set, hji])
  | adopt i l hi hst hl =>
      have hji : j ≠ i := by rintro rfl; simp [hst] at hrec
      exact le_of_eq (by simp [State.adopt, State.set, hji])
  | enterView i hi hst =>
      have hji : j ≠ i := by rintro rfl; simp [hst] at hrec
      exact le_of_eq (by simp [State.enterView, State.set, hji])
  | respond i x hi hst => exact Nat.le_refl _
  | enterRecovery i x hi hst hfresh hbehind =>
      have hji : j ≠ i := by rintro rfl; simp [hst] at hrec
      exact le_of_eq (by simp [State.enterRecovery, State.set, hji])
  | restart i hi hview hlog =>
      by_cases hji : j = i
      · subst hji; simp [State.restart, State.set]
      · exact le_of_eq (by simp [State.restart, State.set, hji])

/-! ## What a quorum has promised is never lost -/

theorem take_eq_of_le {l l' : List E} {n : Nat} (h : l <+: l') (hn : n ≤ l.length) :
    l'.take n = l.take n := by
  obtain ⟨t, rfl⟩ := h
  rw [List.take_append_of_le_length hn]

/-- The main theorem. Every later view starts with at least what was
committed, and with the same entries. Only the first view change needs the
two quorums to meet: after it the committed part is in the base, and every
log held in a view has that view's base. -/
theorem committed_base (hinv : Inv C a) (hprom : Promises C a) {v n : Nat}
    (hcom : Committed C a v n) :
    ∀ {w : Nat} {b : List E}, v < w → a.base w = some b →
      n ≤ b.length ∧ b.take n = (a.viewLog v).take n := by
  intro w
  induction w with
  | zero => intro b hlt; omega
  | succ w ih =>
      intro b hlt hb
      obtain ⟨b₀, hb₀, hb₀b, hbw⟩ := hinv.chain w b hb
      rcases Nat.lt_succ_iff_lt_or_eq.mp hlt with hlt | rfl
      · obtain ⟨hle, htake⟩ := ih hlt hb₀
        exact ⟨hle.trans hb₀b.length_le, (take_eq_of_le hb₀b hle).trans htake⟩
      · obtain ⟨Q, hQ, hQall⟩ := hcom
        obtain ⟨D, hD, hDall⟩ := hprom.base v b hb
        obtain ⟨s, hsD, hsQ⟩ := hD.inter hQ
        have hle : n ≤ b.length := (hQall s hsQ).trans (hDall s hsD).2
        exact ⟨hle, (take_eq_of_le hbw hle).symm⟩

/-- A log held in a later view has every committed entry. -/
theorem committed_held (hinv : Inv C a) (hprom : Promises C a) {v n : Nat}
    (hcom : Committed C a v n) {w : Nat} {l : List E} (hvw : v < w) (hl : Holds a w l) :
    n ≤ l.length ∧ l.take n = (a.viewLog v).take n := by
  obtain ⟨b, hb, hbl, -⟩ := hl
  obtain ⟨hle, htake⟩ := committed_base hinv hprom hcom hvw hb
  exact ⟨hle.trans hbl.length_le, (take_eq_of_le hbl hle).trans htake⟩

/-- Who has promised part of a view's log has it still, in that view, in a view
change or in a later view. -/
theorem promised_kept (hinv : Inv C a) (hprom : Promises C a) {v n : Nat}
    (hcom : Committed C a v n) (hn : 1 ≤ n) {q : ι} (hq : q ∈ C.members)
    (hpromise : n ≤ a.promise q v) :
    n ≤ (a.node q).log.length ∧ (a.node q).log.take n = (a.viewLog v).take n := by
  -- a log held in view `w`, of which `q` has all it promised there
  have hheld : ∀ {w : Nat} {l : List E}, v ≤ w → Holds a w l →
      (w = v → a.promise q v ≤ l.length) → n ≤ l.length ∧ l.take n = (a.viewLog v).take n := by
    intro w l hvw hholds hlen
    rcases hvw.lt_or_eq with hlt | rfl
    · exact committed_held hinv hprom hcom hlt hholds
    · obtain ⟨b, -, -, hle⟩ := hholds
      have hreached := hpromise.trans (hlen rfl)
      exact ⟨hreached, (take_eq_of_le hle hreached).symm⟩
  have hview : v ≤ (a.node q).view := by
    by_contra hlt
    rw [hprom.future q v (not_le.mp hlt)] at hpromise
    omega
  by_cases hst : (a.node q).status = .changing
  · have hvote := hinv.changing q hq hst
    obtain ⟨w, hw, -, hholds⟩ := hinv.vote q _ _ hvote
    have hle : v ≤ w := by
      rcases hview.lt_or_eq with hlt | heq
      · omega
      · rw [heq, hprom.unfollowed q hq hst] at hpromise
        omega
    refine hheld hle hholds fun heq => ?_
    rw [hw, heq] at hvote
    exact hprom.vote q v _ hvote
  · refine hheld hview (hinv.active q hq hst) fun heq => ?_
    have hlen := hprom.held q hq hst
    rwa [heq] at hlen

end Viewstamped
