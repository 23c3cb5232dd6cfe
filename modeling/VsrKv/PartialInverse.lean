import Mathlib.Data.PEquiv
import Std.Data.ExtTreeMap

/-!
# Two tables that are each other's inverse

`f` says which `b` belongs to `a`, if any, and `g` is kept to answer the
opposite question. That `g` answers it right is the law of Mathlib's
`PEquiv`; here it is said of two tables which are written one entry at a
time, and the question is which writes keep it.

The first table determines the second and the second the first
(`IsInverse.left_unique`), so a write to one of them alone never keeps
the law, unless it changes nothing.
-/

namespace PartialInverse

open Function

variable {α β : Type} {f f' : α → Option β} {g : β → Option α} {a : α} {b : β}

/-- `g` is the inverse of `f`. -/
def IsInverse (f : α → Option β) (g : β → Option α) : Prop :=
  ∀ a b, g b = some a ↔ f a = some b

/-- The tables as a partial equivalence. -/
def IsInverse.toPEquiv (h : IsInverse f g) : α ≃. β where
  toFun := f
  invFun := g
  inv := h

theorem IsInverse.inj (h : IsInverse f g) {a a' : α} (ha : f a = some b) (ha' : f a' = some b) :
    a = a' :=
  h.toPEquiv.inj ha ha'

theorem IsInverse.left_unique (h : IsInverse f g) (h' : IsInverse f' g) : f = f' := by
  funext a
  refine Option.ext ?_
  intro b
  exact (h a b).symm.trans (h' a b)

theorem IsInverse.eq_none (h : IsInverse f g) (hfree : ∀ a, f a ≠ some b) : g b = none := by
  refine Option.eq_none_iff_forall_ne_some.mpr ?_
  intro a hg
  exact hfree a ((h a b).mp hg)

section

variable [DecidableEq α]

/-- Taking one out of the first table alone is right only if it was not there. -/
theorem IsInverse.forget_iff (h : IsInverse f g) :
    IsInverse (update f a none) g ↔ f a = none := by
  constructor
  · intro h'
    rw [h.left_unique h', update_self]
  · intro hfa
    rw [← hfa, update_eq_self]
    exact h

variable [DecidableEq β]

/-- A new entry may go to a free place of each table, or repeat an old one. -/
theorem IsInverse.update_iff (h : IsInverse f g) :
    IsInverse (update f a (some b)) (update g b (some a))
      ↔ f a = none ∧ g b = none ∨ f a = some b := by
  constructor
  · intro h'
    cases hfa : f a with
    | none =>
        refine Or.inl ⟨rfl, h.eq_none ?_⟩
        intro a' ha'
        -- Another `a'` with `b` would still have it.
        have hne : a' ≠ a := by
          rintro rfl
          rw [hfa] at ha'
          cases ha'
        have hback := (h' a' b).mpr (by rw [update_of_ne hne, ha'])
        rw [update_self] at hback
        exact hne (Option.some.inj hback).symm
    | some b' =>
        right
        by_cases hb : b' = b
        · rw [hb]
        · have hold := (h' a b').mp (by rw [update_of_ne hb, (h a b').mpr hfa])
          rw [update_self] at hold
          exact hold.symm
  · intro hplace a' b'
    by_cases ha : a' = a
    · subst ha
      by_cases hb : b' = b
      · subst hb
        simp
      · rw [update_of_ne hb, update_self, h a' b']
        rcases hplace with ⟨hfa, -⟩ | hfa
        · simp [hfa, Ne.symm hb]
        · simp [hfa]
    · rw [update_of_ne ha]
      by_cases hb : b' = b
      · subst hb
        rw [update_self, ← h a' b']
        rcases hplace with ⟨-, hgb⟩ | hfa
        · simp [hgb, Ne.symm ha]
        · simp [(h a b').mpr hfa]
      · rw [update_of_ne hb]
        exact h a' b'

/-- An entry may be taken out of both tables. -/
theorem IsInverse.clear (h : IsInverse f g) (hfa : f a = some b) :
    IsInverse (update f a none) (update g b none) := by
  intro a' b'
  by_cases ha : a' = a
  · subst ha
    rw [update_self]
    by_cases hb : b' = b
    · simp [hb]
    · rw [update_of_ne hb, h a' b', hfa]
      simp [Ne.symm hb]
  · rw [update_of_ne ha]
    by_cases hb : b' = b
    · subst hb
      rw [update_self, ← h a' b', (h a b').mpr hfa]
      simp [Ne.symm ha]
    · rw [update_of_ne hb]
      exact h a' b'

end

/-! ## Tables that are maps -/

section

variable [Ord α] [Std.TransOrd α] [Std.LawfulEqOrd α] [DecidableEq α]

theorem getElem?_insert (m : Std.ExtTreeMap α β compare) (a : α) (b : β) :
    (fun x => (m.insert a b)[x]?) = update (fun x => m[x]?) a (some b) := by
  funext x
  rw [Std.ExtTreeMap.getElem?_insert]
  by_cases hx : x = a
  · simp [hx]
  · rw [if_neg (by simpa using Ne.symm hx), update_of_ne hx]

theorem getElem?_erase (m : Std.ExtTreeMap α β compare) (a : α) :
    (fun x => (m.erase a)[x]?) = update (fun x => m[x]?) a none := by
  funext x
  rw [Std.ExtTreeMap.getElem?_erase]
  by_cases hx : x = a
  · simp [hx]
  · rw [if_neg (by simpa using Ne.symm hx), update_of_ne hx]

end

end PartialInverse
