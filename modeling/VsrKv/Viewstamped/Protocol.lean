import Mathlib.Data.Finset.Card
import Mathlib.Data.List.Infix
import Mathlib.Logic.Function.Basic

/-!
# A replicated log that moves from view to view

The protocol a cluster of replicas runs when it keeps a log through
numbered views, without messages, timers or bytes. In each view one
member, the primary, extends the view's log; the others follow it and
promise what they hold. A view ends when members stop following it and
vote, with the log they hold, for the next; its successor starts from a
longest log among a quorum of votes. A member that has fallen behind
recovers: it takes the most advanced state among a quorum of responses.

The state carries its own history. `viewLog v` is all the primary of `v`
has put in the log, `base v` what view `v` started from, `promise i v`
how far `i` has promised to hold the log of `v`; votes and responses
stay on record. History only grows (`Extends`), so a fact about it, once
true, stays true, and facts about two moments compare at the later one.
-/

namespace Viewstamped

inductive Status where
  | normal
  | changing
  | recovering
deriving DecidableEq

structure Node (E K : Type) where
  view : Nat
  status : Status
  log : List E
  nonce : K

structure State (ι E K : Type) where
  node : ι → Node E K
  viewLog : Nat → List E
  base : Nat → Option (List E)
  promise : ι → Nat → Nat
  vote : ι → Nat → List E → Prop
  response : ι → K → Nat → List E → Prop

/-- Who takes part, and who leads which view. -/
structure Config (ι : Type) where
  members : Finset ι
  f : Nat
  primary : Nat → ι
  card : members.card = 2 * f + 1
  primary_mem : ∀ v, primary v ∈ members

variable {ι E K : Type}

/-! ## History only grows -/

structure Extends (a a' : State ι E K) : Prop where
  viewLog : ∀ v, a.viewLog v <+: a'.viewLog v
  base : ∀ v b, a.base v = some b → a'.base v = some b
  promise : ∀ i v, a.promise i v ≤ a'.promise i v
  vote : ∀ i v l, a.vote i v l → a'.vote i v l
  response : ∀ i x v l, a.response i x v l → a'.response i x v l

theorem Extends.refl (a : State ι E K) : Extends a a :=
  ⟨fun _ => List.prefix_rfl, fun _ _ h => h, fun _ _ => Nat.le_refl _, fun _ _ _ h => h,
    fun _ _ _ _ h => h⟩

theorem Extends.trans {a b c : State ι E K} (h₁ : Extends a b) (h₂ : Extends b c) :
    Extends a c :=
  ⟨fun v => (h₁.viewLog v).trans (h₂.viewLog v), fun v l h => h₂.base v l (h₁.base v l h),
    fun i v => (h₁.promise i v).trans (h₂.promise i v),
    fun i v l h => h₂.vote i v l (h₁.vote i v l h),
    fun i x v l h => h₂.response i x v l (h₁.response i x v l h)⟩

/-- A log held in view `v`: at least its base, and nothing beyond its log. -/
def Holds (a : State ι E K) (v : Nat) (l : List E) : Prop :=
  ∃ b, a.base v = some b ∧ b <+: l ∧ l <+: a.viewLog v

theorem Holds.mono {a a' : State ι E K} (h : Extends a a') {v : Nat} {l : List E}
    (hl : Holds a v l) : Holds a' v l := by
  obtain ⟨b, hb, hbl, hlv⟩ := hl
  exact ⟨b, h.base v b hb, hbl, hlv.trans (h.viewLog v)⟩

/-! ## Quorums -/

def Config.Quorum (C : Config ι) (D : Finset ι) : Prop := D ⊆ C.members ∧ C.f + 1 ≤ D.card

theorem Config.members_quorum (C : Config ι) : C.Quorum C.members :=
  ⟨Finset.Subset.refl _, by have := C.card; omega⟩

variable [DecidableEq ι]

theorem Config.Quorum.inter {C : Config ι} {D Q : Finset ι} (hD : C.Quorum D) (hQ : C.Quorum Q) :
    ∃ s, s ∈ D ∧ s ∈ Q := by
  have hcard := C.card
  have := hD.2
  have := hQ.2
  obtain ⟨s, hs⟩ := Finset.inter_nonempty_of_card_lt_card_add_card hD.1 hQ.1 (by omega)
  exact ⟨s, Finset.mem_inter.mp hs⟩

/-- Any two subsets of `k` members meet just if there is no room for two. -/
theorem subsets_meet_iff {S : Finset ι} {k : Nat} (hk : k ≤ S.card) :
    (∀ A ⊆ S, ∀ B ⊆ S, A.card = k → B.card = k → (A ∩ B).Nonempty) ↔ S.card < 2 * k := by
  constructor
  · intro hmeet
    by_contra hroom
    obtain ⟨A, hA, hAcard⟩ := Finset.exists_subset_card_eq hk
    have hrest : k ≤ (S \ A).card := by
      rw [Finset.card_sdiff_of_subset hA]
      omega
    obtain ⟨B, hB, hBcard⟩ := Finset.exists_subset_card_eq hrest
    obtain ⟨s, hs⟩ := hmeet A hA B (hB.trans Finset.sdiff_subset) hAcard hBcard
    obtain ⟨hsA, hsB⟩ := Finset.mem_inter.mp hs
    exact (Finset.mem_sdiff.mp (hB hsB)).2 hsA
  · intro hlt A hA B hB hAcard hBcard
    exact Finset.inter_nonempty_of_card_lt_card_add_card hA hB (by omega)

/-- Without one member, `f` and a quorum still have to meet. -/
theorem Config.inter_erase {C : Config ι} {i : ι} (hi : i ∈ C.members) {D R : Finset ι}
    (hD : D ⊆ C.members.erase i) (hDcard : C.f ≤ D.card) (hR : R ⊆ C.members.erase i)
    (hRcard : C.f + 1 ≤ R.card) : ∃ s, s ∈ D ∧ s ∈ R := by
  have hcard := C.card
  have herase := Finset.card_erase_of_mem hi
  obtain ⟨s, hs⟩ := Finset.inter_nonempty_of_card_lt_card_add_card hD hR (by omega)
  exact ⟨s, Finset.mem_inter.mp hs⟩

namespace State

/-! ## Transitions -/

/-- Replace the state of one member. -/
def set (a : State ι E K) (i : ι) (n : Node E K) : State ι E K :=
  { a with node := Function.update a.node i n }

/-- Member `i` promises the first `k` entries of view `v`. -/
def raise (a : State ι E K) (i : ι) (v k : Nat) : ι → Nat → Nat := fun j w =>
  if j = i ∧ w = v then max (a.promise j w) k else a.promise j w

def propose (a : State ι E K) (i : ι) (e : E) : State ι E K :=
  let n := a.node i
  { a.set i { n with log := n.log ++ [e] } with
    viewLog := Function.update a.viewLog n.view (a.viewLog n.view ++ [e])
    promise := a.raise i n.view (n.log.length + 1) }

def accept (a : State ι E K) (i : ι) (e : E) : State ι E K :=
  let n := a.node i
  { a.set i { n with log := n.log ++ [e] } with
    promise := a.raise i n.view (n.log.length + 1) }

def enterView (a : State ι E K) (i : ι) : State ι E K :=
  let n := a.node i
  { a.set i { n with view := n.view + 1, status := .changing } with
    vote := fun j w l => a.vote j w l ∨ (j = i ∧ w = n.view + 1 ∧ l = n.log) }

def startView (a : State ι E K) (i : ι) (l : List E) : State ι E K :=
  let n := a.node i
  { a.set i { n with status := .normal, log := l } with
    viewLog := Function.update a.viewLog n.view l
    base := Function.update a.base n.view (some l) }

def adopt (a : State ι E K) (i : ι) (l : List E) : State ι E K :=
  let n := a.node i
  { a.set i { n with status := .normal, log := l } with
    promise := a.raise i n.view l.length }

def respond (a : State ι E K) (i : ι) (x : K) : State ι E K :=
  { a with
    response := fun j y v l => a.response j y v l
      ∨ (j = i ∧ y = x ∧ v = (a.node i).view ∧ l = (a.node i).log) }

def enterRecovery (a : State ι E K) (i : ι) (x : K) : State ι E K :=
  a.set i { a.node i with status := .recovering, nonce := x }

def recover (a : State ι E K) (i : ι) (v : Nat) (l : List E) : State ι E K :=
  a.set i { a.node i with view := v, status := .normal, log := l }

/-- A member that has nothing to lose starts over. -/
def restart (a : State ι E K) (i : ι) : State ι E K :=
  a.set i { a.node i with status := .normal }

end State

/-- One step of the protocol, with what has to hold before it. -/
inductive Step (C : Config ι) (a : State ι E K) : State ι E K → Prop where
  | propose (i : ι) (e : E) (hst : (a.node i).status = .normal)
      (hp : i = C.primary (a.node i).view) : Step C a (a.propose i e)
  | accept (i : ι) (e : E) (hi : i ∈ C.members) (hst : (a.node i).status = .normal)
      (he : (a.viewLog (a.node i).view)[(a.node i).log.length]? = some e) :
      Step C a (a.accept i e)
  | enterView (i : ι) (hi : i ∈ C.members) (hst : (a.node i).status = .normal) :
      Step C a (a.enterView i)
  | startView (i : ι) (D : Finset ι) (l : List E) (hst : (a.node i).status = .changing)
      (hp : i = C.primary (a.node i).view) (hD : C.Quorum D)
      (hvotes : ∀ s ∈ D, ∃ l', a.vote s (a.node i).view l' ∧ l'.length ≤ l.length)
      (hl : ∃ s ∈ D, a.vote s (a.node i).view l) : Step C a (a.startView i l)
  | adopt (i : ι) (l : List E) (hi : i ∈ C.members) (hst : (a.node i).status = .changing)
      (hl : a.base (a.node i).view = some l) : Step C a (a.adopt i l)
  | respond (i : ι) (x : K) (hi : i ∈ C.members) (hst : (a.node i).status = .normal) :
      Step C a (a.respond i x)
  | enterRecovery (i : ι) (x : K) (hi : i ∈ C.members) (hst : (a.node i).status = .normal)
      (hfresh : ∀ j v l, ¬a.response j x v l)
      (hbehind : i ≠ C.primary (a.node i).view
        ∨ ∃ w b, (a.node i).view < w ∧ a.base w = some b) :
      Step C a (a.enterRecovery i x)
  | recover (i : ι) (R : Finset ι) (v : Nat) (l : List E) (hi : i ∈ C.members)
      (hst : (a.node i).status = .recovering) (hR : R ⊆ C.members.erase i)
      (hcard : C.f + 1 ≤ R.card)
      (hall : ∀ j ∈ R, ∃ v' l', a.response j (a.node i).nonce v' l'
        ∧ (v' < v ∨ v' = v ∧ l'.length ≤ l.length))
      (hbest : ∃ j ∈ R, a.response j (a.node i).nonce v l) : Step C a (a.recover i v l)
  | restart (i : ι) (hi : i ∈ C.members) (hview : (a.node i).view = 0)
      (hlog : (a.node i).log = []) : Step C a (a.restart i)

theorem le_raise (a : State ι E K) (i : ι) (v k : Nat) (j : ι) (w : Nat) :
    a.promise j w ≤ a.raise i v k j w := by
  unfold State.raise
  split
  · exact Nat.le_max_left ..
  · exact Nat.le_refl _

omit [DecidableEq ι] in
theorem extends_respond (a : State ι E K) (i : ι) (x : K) : Extends a (a.respond i x) :=
  { Extends.refl a with response := fun _ _ _ _ h => Or.inl h }

end Viewstamped
