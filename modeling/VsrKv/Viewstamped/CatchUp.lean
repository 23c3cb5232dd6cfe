import VsrKv.Viewstamped.Promises

/-!
# Catching up

The protocol lets a member recover from a quorum of responses. What the
invariants need of it is less: a member may be put in any view from its
own on, with any log held there, however it came by it, unless it is in
that view already and the log is shorter than its own (`Ahead`). So
whatever a member has been through in the meantime, it is as good as new
once it has such a log.
-/

namespace Viewstamped

variable {ι E K : Type}

variable {C : Config ι} {a : State ι E K} {i : ι} {v : Nat} {l : List E}

/-- In view `v` with log `l`, member `i` has no less than it has now. -/
def Ahead (a : State ι E K) (i : ι) (v : Nat) (l : List E) : Prop :=
  (a.node i).view < v ∨ (a.node i).view = v ∧ (a.node i).log.length ≤ l.length

theorem Ahead.view_le (h : Ahead a i v l) : (a.node i).view ≤ v :=
  h.elim Nat.le_of_lt fun h => h.1.le

variable [DecidableEq ι]

theorem frame_catchUp (h : Ahead a i v l) : Frame a (a.recover i v l) i := frame_set a i h.view_le

theorem node_recover (a : State ι E K) (i : ι) (v : Nat) (l : List E) :
    (a.recover i v l).node i = { a.node i with view := v, status := .normal, log := l } := by
  simp [State.recover, State.set]

/-- A primary has all of its view's log, so what is ahead of it there is the same. -/
theorem Inv.catchUp (h : Inv C a) (hl : Holds a v l) (hahead : Ahead a i v l) :
    Inv C (a.recover i v l) := by
  have hnode := node_recover a i v l
  refine h.of_frame (frame_catchUp hahead) rfl (fun w b hb => Or.inl hb) (fun w => Or.inl rfl)
    ?_ ?_ ?_ (fun j w l' hv => Or.inl hv) ?_
  · intro w _ hlead
    obtain ⟨hview, -, hlog⟩ := hlead
    rw [hnode]
    rcases hahead with hlt | ⟨rfl, hle⟩
    · exact Or.inl (hview ▸ hlt)
    · obtain ⟨-, -, -, hlv⟩ := hl
      subst hview
      rw [hlog] at hle
      refine Or.inr ⟨by rw [hnode], by simp [hnode], ?_⟩
      rw [hnode]
      exact hlv.eq_of_length_le hle
  · intro _
    rw [hnode]
    exact hl.mono (frame_catchUp hahead).ext
  · intro hch
    simp [hnode] at hch
  · intro hrec
    simp [hnode] at hrec

theorem Promises.catchUp (h : Promises C a) (hinv : Inv C a) (hi : i ∈ C.members)
    (hahead : Ahead a i v l) : Promises C (a.recover i v l) := by
  have hnode := node_recover a i v l
  refine h.of_frame hinv (frame_catchUp hahead) (fun j w => Or.inl rfl)
    ?_ ?_ (fun j w l' hv => Or.inl hv) (fun w b hb => Or.inl hb)
  · intro hch
    simp [hnode] at hch
  · intro _
    rw [hnode]
    change a.promise i v ≤ l.length
    rcases hahead with hlt | ⟨rfl, hle⟩
    · rw [h.future i v hlt]
      exact Nat.zero_le _
    · by_cases hst : (a.node i).status = .changing
      · rw [h.unfollowed i hi hst]
        exact Nat.zero_le _
      · exact (h.held i hi hst).trans hle

end Viewstamped
