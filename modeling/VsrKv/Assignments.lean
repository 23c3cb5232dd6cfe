import Mathlib.Data.List.Induction
import Mathlib.Tactic.Linarith

/-!
# Assignments to a map

A list of assignments leaves at a key what was assigned there last, or
else what was there before (`getElem?_assign`). So where the map started
from shows at the keys that nothing is assigned to and nowhere else.
-/

namespace Assignments

variable {κ ν : Type} [DecidableEq κ]

/-- What is assigned to `k` last. -/
def latest (as : List (κ × ν)) (k : κ) : Option ν := (as.reverse.find? (·.1 = k)).map (·.2)

@[simp] theorem latest_nil (k : κ) : latest ([] : List (κ × ν)) k = none := rfl

theorem latest_concat (as : List (κ × ν)) (a : κ × ν) (k : κ) :
    latest (as ++ [a]) k = if a.1 = k then some a.2 else latest as k := by
  rw [latest, List.reverse_append, List.reverse_singleton, List.singleton_append, List.find?_cons]
  by_cases h : a.1 = k
  · simp [h]
  · simp [h, latest]

theorem latest_cons (a : κ × ν) (as : List (κ × ν)) (k : κ) :
    latest (a :: as) k = (latest as k).or (if a.1 = k then some a.2 else none) := by
  induction as using List.reverseRecOn with
  | nil => simpa using latest_concat [] a k
  | append_singleton as b ih =>
      rw [← List.cons_append, latest_concat, latest_concat, ih]
      split <;> simp

theorem latest_eq_none_iff {as : List (κ × ν)} {k : κ} :
    latest as k = none ↔ ∀ v, (k, v) ∉ as := by
  rw [latest, Option.map_eq_none_iff, List.find?_eq_none]
  constructor
  · intro h v hv
    exact h (k, v) (List.mem_reverse.mpr hv) (by simp)
  · rintro h ⟨k', v⟩ ha hk
    obtain rfl : k' = k := by simpa using hk
    exact h v (List.mem_reverse.mp ha)

variable [Ord κ] [Std.TransOrd κ] [Std.LawfulEqOrd κ]

def assign (m : Std.ExtTreeMap κ ν compare) (as : List (κ × ν)) : Std.ExtTreeMap κ ν compare :=
  as.foldl (fun m a => m.insert a.1 a.2) m

omit [DecidableEq κ] [Std.LawfulEqOrd κ] in
theorem assign_concat (m : Std.ExtTreeMap κ ν compare) (as : List (κ × ν)) (a : κ × ν) :
    assign m (as ++ [a]) = (assign m as).insert a.1 a.2 := by
  rw [assign, List.foldl_append]
  rfl

theorem getElem?_assign (m : Std.ExtTreeMap κ ν compare) (as : List (κ × ν)) (k : κ) :
    (assign m as)[k]? = (latest as k).or m[k]? := by
  induction as using List.reverseRecOn with
  | nil => rfl
  | append_singleton as a ih =>
      rw [assign_concat, latest_concat, Std.ExtTreeMap.getElem?_insert, ih]
      by_cases h : a.1 = k
      · simp [h]
      · have hcmp : ¬compare a.1 k = .eq := by simpa using h
        rw [if_neg hcmp, if_neg h]

/-- Starting from `m` is starting from nothing, if every key of `m` is
assigned to. -/
theorem assign_eq_assign_empty_iff {m : Std.ExtTreeMap κ ν compare} {as : List (κ × ν)} :
    assign m as = assign ∅ as ↔ ∀ k ∈ m, ∃ v, (k, v) ∈ as := by
  constructor
  · intro h k hk
    by_contra hnot
    have hlatest : latest as k = none := latest_eq_none_iff.mpr fun v hv => hnot ⟨v, hv⟩
    have hget := congrArg (·[k]?) h
    simp only [getElem?_assign, hlatest, Option.none_or, Std.ExtTreeMap.getElem?_empty] at hget
    rw [Std.ExtTreeMap.mem_iff_isSome_getElem?, hget] at hk
    cases hk
  · intro h
    refine Std.ExtTreeMap.ext_getElem? fun k => ?_
    rw [getElem?_assign, getElem?_assign]
    cases hlatest : latest as k with
    | some v => rfl
    | none =>
        have hnot : m[k]? = none := by
          by_contra hsome
          obtain ⟨v, hv⟩ := h k (Std.ExtTreeMap.mem_iff_isSome_getElem?.mpr
            (Option.isSome_iff_ne_none.mpr hsome))
          exact latest_eq_none_iff.mp hlatest v hv
        rw [hnot]
        simp

end Assignments
