/-!
# Runs of a transition system

A system is a step function that says which events are enabled and
where they lead; a run is a chain of steps each of which meets a
condition `ok` on the state before, the event and the state after. The
condition is how a result says which runs it is about: which events
occur, what the environment promises, which states are kept to.

Results about runs come in two shapes. An invariant holds in every
state a run reaches (`Steps.invariant`); a simulation follows a run in
a second system, which says more about the past than the state does
(`Steps.simulation`). Where a result names events of the past, the run
comes with the list of them (`Path`).
-/

namespace TransitionSystem

variable {σ ε : Type} {step : σ → ε → Option σ} {ok ok' : σ → ε → σ → Prop}

/-- `Steps step ok s t`: a run from `s` to `t`. -/
inductive Steps (step : σ → ε → Option σ) (ok : σ → ε → σ → Prop) : σ → σ → Prop where
  | refl (s : σ) : Steps step ok s s
  | tail {s t u : σ} {e : ε} (run : Steps step ok s t) (hstep : step t e = some u)
      (hok : ok t e u) : Steps step ok s u

namespace Steps

/-- The invariant rule. The step case may use that its first state lies on
a run from `s`, so earlier invariants are available by name. -/
theorem invariant {I : σ → Prop} {s t : σ} (run : Steps step ok s t) (h0 : I s)
    (hstep : ∀ u e v, Steps step ok s u → step u e = some v → ok u e v → I u → I v) :
    I t := by
  induction run with
  | refl => exact h0
  | tail run hs hok ih => exact hstep _ _ _ run hs hok ih

theorem trans {s t u : σ} (run : Steps step ok s t) (run' : Steps step ok t u) :
    Steps step ok s u := by
  induction run' with
  | refl => exact run
  | tail _ hs hok ih => exact .tail ih hs hok

theorem head {s t u : σ} {e : ε} (hstep : step s e = some t) (hok : ok s e t)
    (run : Steps step ok t u) : Steps step ok s u :=
  (Steps.tail (.refl s) hstep hok).trans run

/-- The steps of a run may be known to meet another condition as well. -/
theorem mono {s t : σ} (run : Steps step ok s t)
    (h : ∀ {u e v}, Steps step ok s u → step u e = some v → ok u e v → ok' u e v) :
    Steps step ok' s t := by
  induction run with
  | refl => exact .refl _
  | tail run hstep hok ih => exact .tail ih hstep (h run hstep hok)

/-- What each of `todo` can do without disturbing the others, all of them can do. -/
theorem exists_forEach {ι : Type} {I : σ → Prop} {P Q : ι → σ → Prop} {todo : List ι}
    (hnodup : todo.Nodup)
    (hstep : ∀ j ∈ todo, ∀ s, I s → P j s → ∃ t, Steps step ok s t ∧ I t ∧ Q j t
      ∧ ∀ i, i ≠ j → (P i s → P i t) ∧ (Q i s → Q i t))
    {s : σ} (hI : I s) (h : ∀ j ∈ todo, P j s) :
    ∃ t, Steps step ok s t ∧ I t ∧ ∀ j ∈ todo, Q j t := by
  induction todo generalizing I s with
  | nil => exact ⟨s, .refl s, hI, by simp⟩
  | cons j todo ih =>
      obtain ⟨hj, hnodup⟩ := List.nodup_cons.mp hnodup
      have hne : ∀ i ∈ todo, i ≠ j := fun i hi heq => hj (heq ▸ hi)
      obtain ⟨t, run, ht, hdone, hothers⟩ :=
        hstep j List.mem_cons_self s hI (h j List.mem_cons_self)
      -- what `j` has done is among the things the others keep
      obtain ⟨u, run', ⟨hu, hdone⟩, hrest⟩ := ih (I := fun t => I t ∧ Q j t) hnodup
        (fun i hi s' ⟨hI', hdone'⟩ hP => by
          obtain ⟨t', run', ht', hQ, hothers'⟩ := hstep i (List.mem_cons_of_mem _ hi) s' hI' hP
          exact ⟨t', run', ⟨ht', (hothers' j (hne i hi).symm).2 hdone'⟩, hQ, hothers'⟩)
        ⟨ht, hdone⟩ fun i hi => (hothers i (hne i hi)).1 (h i (List.mem_cons_of_mem _ hi))
      exact ⟨u, run.trans run', hu, List.forall_mem_cons.mpr ⟨hdone, hrest⟩⟩

/-- The simulation rule. If every step of the system can be followed by `α`
so that `R` is kept, a whole run can, and `α` has moved along `le`. -/
theorem simulation {α : Type} {R : σ → α → Prop} {le : α → α → Prop} (hrefl : ∀ a, le a a)
    (htrans : ∀ {a b d}, le a b → le b d → le a d)
    (hstep : ∀ {s e t a}, R s a → step s e = some t → ok s e t → ∃ b, R t b ∧ le a b)
    {s t : σ} {a : α} (h : R s a) (run : Steps step ok s t) : ∃ b, R t b ∧ le a b := by
  induction run with
  | refl => exact ⟨a, h, hrefl a⟩
  | tail run hs hok ih =>
      obtain ⟨b, hb, hab⟩ := ih
      obtain ⟨d, hd, hbd⟩ := hstep hb hs hok
      exact ⟨d, hd, htrans hab hbd⟩

end Steps

/-! ## Runs with their events -/

/-- `Path step ok s es t`: a run from `s` to `t` by the events `es`. -/
inductive Path (step : σ → ε → Option σ) (ok : σ → ε → σ → Prop) : σ → List ε → σ → Prop where
  | nil (s : σ) : Path step ok s [] s
  | snoc {s t u : σ} {es : List ε} {e : ε} (path : Path step ok s es t) (hstep : step t e = some u)
      (hok : ok t e u) : Path step ok s (es ++ [e]) u

namespace Path

theorem steps {s t : σ} {es : List ε} (path : Path step ok s es t) : Steps step ok s t := by
  induction path with
  | nil => exact .refl _
  | snoc _ hstep hok ih => exact .tail ih hstep hok

theorem append {s t u : σ} {es es' : List ε} (path : Path step ok s es t)
    (path' : Path step ok t es' u) : Path step ok s (es ++ es') u := by
  induction path' with
  | nil => rw [List.append_nil]; exact path
  | snoc _ hstep hok ih => rw [← List.append_assoc]; exact .snoc ih hstep hok

theorem mono {s t : σ} {es : List ε} (path : Path step ok s es t)
    (h : ∀ {es u e v}, Path step ok s es u → step u e = some v → ok u e v → ok' u e v) :
    Path step ok' s es t := by
  induction path with
  | nil => exact .nil _
  | snoc path hstep hok ih => exact .snoc ih hstep (h path hstep hok)

/-- The invariant rule for what depends on the events so far. -/
theorem invariant {I : List ε → σ → Prop} {s t : σ} {es : List ε} (path : Path step ok s es t)
    (h0 : I [] s)
    (hstep : ∀ es u e v, Path step ok s es u → step u e = some v → ok u e v → I es u →
      I (es ++ [e]) v) : I es t := by
  induction path with
  | nil => exact h0
  | snoc path hs hok ih => exact hstep _ _ _ _ path hs hok ih

end Path

/-! ## Executing a run

A finite list of events either is a run or is not; where `ok` can be
decided, so can that. -/

def replay (step : σ → ε → Option σ) (ok : σ → ε → σ → Prop)
    [∀ s e t, Decidable (ok s e t)] : σ → List ε → Option σ
  | s, [] => some s
  | s, e :: es =>
      match step s e with
      | none => none
      | some t => if ok s e t then replay step ok t es else none

theorem Steps.of_replay [∀ s e t, Decidable (ok s e t)] {s t u : σ} {es : List ε}
    (run : Steps step ok s t) (h : replay step ok t es = some u) : Steps step ok s u := by
  induction es generalizing t with
  | nil => exact Option.some.inj h ▸ run
  | cons e es ih =>
      rw [replay] at h
      split at h
      · cases h
      · rename_i v hv
        split at h
        · rename_i hok
          exact ih (.tail run hv hok) h
        · cases h

theorem Path.of_replay [∀ s e t, Decidable (ok s e t)] {s t u : σ} {es es' : List ε}
    (path : Path step ok s es t) (h : replay step ok t es' = some u) :
    Path step ok s (es ++ es') u := by
  induction es' generalizing t es with
  | nil => rw [List.append_nil]; exact Option.some.inj h ▸ path
  | cons e es' ih =>
      rw [replay] at h
      split at h
      · cases h
      · rename_i v hv
        split at h
        · rename_i hok
          rw [List.append_cons]
          exact ih (.snoc path hv hok) h
        · cases h

/-- A run to a state with a given property, found by executing it. -/
theorem exists_of_replay (step : σ → ε → Option σ) (ok : σ → ε → σ → Prop)
    [∀ s e t, Decidable (ok s e t)] (s : σ) (es : List ε) {P : σ → Prop} [DecidablePred P]
    (h : (replay step ok s es).any (P ·) = true) : ∃ t, Steps step ok s t ∧ P t := by
  cases hr : replay step ok s es with
  | none => simp [hr] at h
  | some t =>
      rw [hr] at h
      exact ⟨t, Steps.of_replay (.refl s) hr, by simpa using h⟩

/-- The same for two moments of one run. -/
theorem exists_of_replay₂ (step : σ → ε → Option σ) (ok : σ → ε → σ → Prop)
    [∀ s e t, Decidable (ok s e t)] (s : σ) (es es' : List ε) {P : σ → σ → Prop}
    [∀ t u, Decidable (P t u)]
    (h : ((replay step ok s es).any fun t => (replay step ok t es').any (P t ·)) = true) :
    ∃ t u, Steps step ok s t ∧ Steps step ok t u ∧ P t u := by
  cases hr : replay step ok s es with
  | none => simp [hr] at h
  | some t =>
      simp only [hr, Option.any_some] at h
      obtain ⟨u, run, hu⟩ := exists_of_replay step ok t es' h
      exact ⟨t, u, Steps.of_replay (.refl s) hr, run, hu⟩

/-- The same with the events of the run. -/
theorem exists_path_of_replay (step : σ → ε → Option σ) (ok : σ → ε → σ → Prop)
    [∀ s e t, Decidable (ok s e t)] (s : σ) (es : List ε) {P : σ → Prop} [DecidablePred P]
    (h : (replay step ok s es).any (P ·) = true) : ∃ t, Path step ok s es t ∧ P t := by
  cases hr : replay step ok s es with
  | none => simp [hr] at h
  | some t =>
      rw [hr] at h
      exact ⟨t, Path.of_replay (.nil s) hr, by simpa using h⟩

/-- The same for two moments of one run, with its events. -/
theorem exists_path_of_replay₂ (step : σ → ε → Option σ) (ok : σ → ε → σ → Prop)
    [∀ s e t, Decidable (ok s e t)] (s : σ) (es es' : List ε) {P : σ → σ → Prop}
    [∀ t u, Decidable (P t u)]
    (h : ((replay step ok s es).any fun t => (replay step ok t es').any (P t ·)) = true) :
    ∃ t u, Path step ok s es t ∧ Path step ok t es' u ∧ P t u := by
  cases hr : replay step ok s es with
  | none => simp [hr] at h
  | some t =>
      simp only [hr, Option.any_some] at h
      obtain ⟨u, path, hu⟩ := exists_path_of_replay step ok t es' h
      exact ⟨t, u, Path.of_replay (.nil s) hr, path, hu⟩

end TransitionSystem
