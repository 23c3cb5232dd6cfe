import Mathlib.Data.List.MinMax

/-!
# Selection by a left fold

A loop that walks over a list with a candidate in hand, and gives it up
only for something strictly better, ends with the first of the best:
`List.argmax`. What Mathlib knows of `argmax` is stated here of the loop,
together with what a caller may conclude about the order of the list: if
equally good elements agree in what matters, the order does not.
-/

namespace Selection

variable {α β κ : Type} [LinearOrder κ] {key : α → κ}

/-- One turn: the challenger has to be better. -/
def pick (key : α → κ) (best x : α) : α := if key best < key x then x else best

theorem argmax_cons_eq (a : α) (l : List α) :
    (a :: l).argmax key = some (l.foldl (pick key) a) := by
  induction l using List.reverseRecOn with
  | nil => rfl
  | append_singleton l x ih =>
      rw [← List.cons_append, List.argmax_concat, ih, List.foldl_append, List.foldl_cons,
        List.foldl_nil, pick]
      exact (apply_ite some _ _ _).symm

theorem foldl_pick_mem (a : α) (l : List α) : l.foldl (pick key) a ∈ a :: l :=
  List.argmax_mem (argmax_cons_eq a l)

theorem key_le_foldl_pick {a x : α} {l : List α} (hx : x ∈ a :: l) :
    key x ≤ key (l.foldl (pick key) a) :=
  List.le_of_mem_argmax hx (argmax_cons_eq a l)

/-- A first candidate either loses to what the others would have selected, or
stays. -/
theorem foldl_pick_cons (a b : α) (l : List α) :
    (b :: l).foldl (pick key) a = pick key a (l.foldl (pick key) b) := by
  have h : (a :: b :: l).argmax key = _ := argmax_cons_eq a (b :: l)
  rw [List.argmax_cons, argmax_cons_eq] at h
  rw [pick, ← Option.some.injEq, ← h]
  exact (apply_ite some _ _ _).symm

theorem foldl_pick_perm {v : α → β} {a b : α} {l l' : List α} (hperm : (a :: l).Perm (b :: l'))
    (hsame : ∀ x ∈ a :: l, ∀ y ∈ a :: l, key x = key y → v x = v y) :
    v (l.foldl (pick key) a) = v (l'.foldl (pick key) b) := by
  have hmem : l'.foldl (pick key) b ∈ a :: l := hperm.mem_iff.mpr (foldl_pick_mem b l')
  have hmem' : l.foldl (pick key) a ∈ b :: l' := hperm.mem_iff.mp (foldl_pick_mem a l)
  exact hsame _ (foldl_pick_mem a l) _ hmem
    (le_antisymm (key_le_foldl_pick hmem') (key_le_foldl_pick hmem))

end Selection
