import Mathlib.Order.Interval.Finset.Nat
import VsrKv.Actions

/-!
# Logs as lists, and which of them are chosen

The program keeps a log as a map from op numbers to entries and, beside
it, the op number it has reached. What a replica means by the two is a
list: entry 1 first, no gaps, nothing beyond `op`, and no
acknowledgements, which are the primary's own notes (`Represents`).

The second half is about the two places where a log is chosen among
several that have come over the wire: the votes for a new view
(`selectLog_spec`) and the responses to a recovery (`bestResponse_spec`).
-/

namespace VsrKv

open Replica

/-- The entry at an op number; op numbers start at 1. -/
def entryAt (l : List LogEntry) : Nat → Option LogEntry
  | 0 => none
  | n + 1 => l[n]?

theorem mem_of_logged {log : Log} {n : Nat} {e : LogEntry} (he : log[n]? = some e) : n ∈ log := by
  rw [Std.ExtTreeMap.mem_iff_isSome_getElem?, he]
  rfl

/-- The log has an entry for each op number up to `op`, and for no other. -/
def GapFree (log : Log) (op : Nat) : Prop := ∀ n, n ∈ log ↔ 1 ≤ n ∧ n ≤ op

namespace GapFree

variable {log : Log} {op : Nat}

theorem empty : GapFree ∅ 0 := by
  intro n
  simp
  omega

theorem size_eq (h : GapFree log op) : log.size = op := by
  have hnodup : log.keys.Nodup :=
    Std.ExtTreeMap.distinct_keys.imp fun hne => by simpa using hne
  have hkeys : log.keys.toFinset = Finset.Icc 1 op := by
    ext n
    rw [List.mem_toFinset, Std.ExtTreeMap.mem_keys, h n, Finset.mem_Icc]
  have hcard := congrArg Finset.card hkeys
  rw [List.toFinset_card_of_nodup hnodup, Std.ExtTreeMap.length_keys, Nat.card_Icc] at hcard
  omega

theorem insert_next (h : GapFree log op) (e : LogEntry) :
    GapFree (log.insert (op + 1) e) (op + 1) := by
  intro n
  rw [Std.ExtTreeMap.mem_insert, h n, compare_eq_iff_eq]
  omega

theorem insert_same (h : GapFree log op) {n : Nat} (hn : n ∈ log) (e : LogEntry) :
    GapFree (log.insert n e) op := by
  intro k
  rw [Std.ExtTreeMap.mem_insert, compare_eq_iff_eq]
  refine ⟨?_, fun hk => Or.inr ((h k).mpr hk)⟩
  rintro (rfl | hk)
  · exact (h n).mp hn
  · exact (h k).mp hk

theorem strip (h : GapFree log op) : GapFree (stripLog log) op := by
  intro n
  rw [Std.ExtTreeMap.mem_iff_isSome_getElem?, getElem?_stripLog, Option.isSome_map,
    ← Std.ExtTreeMap.mem_iff_isSome_getElem?]
  exact h n

/-- A gap-free log of entries within their types can be sent. -/
theorem inRange (h : GapFree log op) (hop : op < 2 ^ 64) (hfits : LogFits log) :
    LogInRange log where
  size := h.size_eq.trans_lt hop
  key n e he := (hfits n e he).1
  entry n e he := (hfits n e he).2

end GapFree

structure Represents (log : Log) (op : Nat) (l : List LogEntry) : Prop where
  op : op = l.length
  get : ∀ n : Nat, (log[n]?).map LogEntry.strip = entryAt l n

theorem entryAt_isSome {l : List LogEntry} {n : Nat} {e : LogEntry} (h : entryAt l n = some e) :
    1 ≤ n ∧ n ≤ l.length := by
  cases n with
  | zero => cases h
  | succ n =>
      have := (List.getElem?_eq_some_iff.mp h).1
      omega

theorem entryAt_mono {l l' : List LogEntry} {n : Nat} {e : LogEntry} (h : l <+: l')
    (he : entryAt l n = some e) : entryAt l' n = some e := by
  cases n with
  | zero => cases he
  | succ n =>
      obtain ⟨t, rfl⟩ := h
      exact (List.getElem?_append_left (List.getElem?_eq_some_iff.mp he).1).trans he

theorem entryAt_take {l l' : List LogEntry} {n m : Nat} (h : l.take n = l'.take n)
    (hm : m ≤ n) : entryAt l m = entryAt l' m := by
  cases m with
  | zero => rfl
  | succ m =>
      have hget := congrArg (·[m]?) h
      simpa [entryAt, List.getElem?_take, show m < n by omega] using hget

theorem mem_of_entryAt {l : List LogEntry} {n : Nat} {e : LogEntry} (h : entryAt l n = some e) :
    e ∈ l := by
  cases n with
  | zero => cases h
  | succ n => exact List.mem_of_getElem? h

theorem exists_entryAt {l : List LogEntry} {n : Nat} (h₁ : 1 ≤ n) (h₂ : n ≤ l.length) :
    ∃ e, entryAt l n = some e := by
  cases n with
  | zero => omega
  | succ n => exact ⟨_, List.getElem?_eq_getElem (by omega)⟩

theorem entryAt_append_length (l : List LogEntry) (e : LogEntry) :
    entryAt (l ++ [e]) (l.length + 1) = some e := by
  simp [entryAt]

namespace Represents

variable {log : Log} {op : Nat} {l : List LogEntry}

theorem empty : Represents ∅ 0 [] where
  op := rfl
  get n := by cases n <;> simp [entryAt]

theorem entryAt_some (h : Represents log op l) {n : Nat} {e : LogEntry}
    (he : log[n]? = some e) : entryAt l n = some e.strip := by
  have := h.get n
  rw [he] at this
  exact this.symm

theorem exists_get (h : Represents log op l) {n : Nat} {e : LogEntry}
    (he : entryAt l n = some e) : ∃ e', log[n]? = some e' ∧ e'.strip = e := by
  have := h.get n
  rw [he] at this
  simpa using this

theorem bounds (h : Represents log op l) {n : Nat} {e : LogEntry} (he : log[n]? = some e) :
    1 ≤ n ∧ n ≤ op := by
  have := entryAt_isSome (h.entryAt_some he)
  rw [h.op]
  exact this

/-- Logging at the next op number appends. -/
theorem insert_next (h : Represents log op l) (e : LogEntry) :
    Represents (log.insert (op + 1) e) (op + 1) (l ++ [e.strip]) where
  op := by simp [h.op]
  get n := by
    rw [Std.ExtTreeMap.getElem?_insert]
    by_cases hn : op + 1 = n
    · subst hn
      simp [h.op, entryAt]
    · have hcmp : ¬compare (op + 1) n = .eq := by simpa using hn
      rw [if_neg hcmp, h.get]
      cases n with
      | zero => rfl
      | succ n =>
          have hop := h.op
          rcases Nat.lt_or_ge n l.length with hlt | hge
          · simp [entryAt, List.getElem?_append_left hlt]
          · have hlt : l.length + 1 ≤ n := by omega
            simp [entryAt, List.getElem?_eq_none hge,
              List.getElem?_eq_none (l := l ++ [e.strip]) (by simpa using hlt)]

/-- Rewriting an entry's acknowledgements changes nothing. -/
theorem insert_same (h : Represents log op l) {n : Nat} {e e' : LogEntry}
    (he : log[n]? = some e) (hstrip : e'.strip = e.strip) :
    Represents (log.insert n e') op l where
  op := h.op
  get m := by
    rw [Std.ExtTreeMap.getElem?_insert]
    by_cases hm : n = m
    · subst hm
      rw [← h.get, he]
      simp [hstrip]
    · have hcmp : ¬compare n m = .eq := by simpa using hm
      rw [if_neg hcmp, h.get]

theorem strip (h : Represents log op l) : Represents (stripLog log) op l where
  op := h.op
  get n := by
    rw [getElem?_stripLog, Option.map_map, ← h.get]
    rfl

theorem gapFree (h : Represents log op l) : GapFree log op := by
  intro n
  rw [Std.ExtTreeMap.mem_iff_isSome_getElem?, ← Option.isSome_map (f := LogEntry.strip), h.get,
    h.op]
  refine ⟨?_, ?_⟩
  · intro hsome
    obtain ⟨e, he⟩ := Option.isSome_iff_exists.mp hsome
    exact entryAt_isSome he
  · intro hn
    obtain ⟨e, he⟩ := exists_entryAt hn.1 hn.2
    rw [he]
    rfl

theorem inRange (h : Represents log op l) (hlen : l.length < 2 ^ 64)
    (hl : ∀ e ∈ l, e.InRange) : LogInRange log where
  size := by have := h.gapFree.size_eq; have := h.op; omega
  key n e he := by have := h.bounds he; have := h.op; omega
  entry n e he := by
    have := hl _ (mem_of_entryAt (h.entryAt_some he))
    exact ⟨this.view, this.requestNum, this.payload⟩

end Represents

theorem prepareOkAcks_stripLog {log : Log} {n : Nat} {e : LogEntry}
    (h : (stripLog log)[n]? = some e) : e.prepareOkAcks = ∅ := by
  rw [getElem?_stripLog, Option.map_eq_some_iff] at h
  obtain ⟨e', -, rfl⟩ := h
  rfl

/-! ## Choosing among votes -/

/-- A vote that decodes, to a log of view `lnv`. -/
def Decodes (lnv : Nat) (d : VsrMessage) (log : Log) : Prop :=
  ∀ n, DoViewChangePayload.deserialize d.payload { lastNormalView := n }
    = (true, { lastNormalView := lnv, log })

/-- `best` is the choice among `votes`: the log of one of them, none of them
longer, and a commit number one of them or the chooser has. -/
structure Chosen (commit : Nat) (votes : List VsrMessage) (lnv : Nat) (best : LogChoice) :
    Prop where
  vote : ∃ d ∈ votes, Decodes lnv d best.payload.log ∧ best.op = d.header.op
  view : best.payload.lastNormalView = lnv
  op : ∀ d ∈ votes, d.header.op ≤ best.op
  commit : best.commit = commit ∨ ∃ d ∈ votes, best.commit = d.header.commit

theorem Chosen.consider {commit u lnv : Nat} {votes : List VsrMessage} {best : LogChoice}
    (h : Chosen commit votes lnv best) {d : VsrMessage} {log : Log} (hd : Decodes lnv d log) :
    Chosen commit (votes ++ [d]) lnv (best.consider u d) := by
  have hmem : ∀ d' ∈ votes, d' ∈ votes ++ [d] := fun d' => List.mem_append_left _
  have hcommit : max best.commit d.header.commit = commit
      ∨ ∃ d' ∈ votes ++ [d], max best.commit d.header.commit = d'.header.commit := by
    rcases Nat.le_total best.commit d.header.commit with hle | hle
    · exact Or.inr ⟨d, by simp, Nat.max_eq_right hle⟩
    · rw [Nat.max_eq_left hle]
      exact h.commit.imp_right fun ⟨d', hd', heq⟩ => ⟨d', hmem d' hd', heq⟩
  have hop : ∀ n, best.op ≤ n → d.header.op ≤ n → ∀ d' ∈ votes ++ [d], d'.header.op ≤ n := by
    intro n hbest hdn d' hd'
    rcases List.mem_append.mp hd' with hd' | hd'
    · exact (h.op d' hd').trans hbest
    · rw [List.mem_singleton.mp hd']; exact hdn
  unfold LogChoice.consider
  rw [hd u]
  simp only [h.view, gt_iff_lt, lt_irrefl, if_false, true_and]
  split
  · rename_i hlt
    exact ⟨⟨d, by simp, hd, rfl⟩, rfl, hop _ hlt.le (Nat.le_refl _), hcommit⟩
  · rename_i hge
    obtain ⟨d', hd', hdec, heq⟩ := h.vote
    exact ⟨⟨d', hmem d' hd', hdec, heq⟩, h.view, hop best.op (Nat.le_refl _) (by omega), hcommit⟩

/-- The selection of `handle_do_view_change` among votes that all come from
the same last normal view. -/
theorem selectLog_spec {u commit lnv : Nat} {votes : List VsrMessage} (hne : votes ≠ [])
    (hdec : ∀ d ∈ votes, ∃ log, Decodes lnv d log) :
    Chosen commit votes lnv (selectLog u commit votes) := by
  cases votes with
  | nil => exact absurd rfl hne
  | cons first rest =>
      -- the candidate after each turn is the choice among the votes seen so far
      have hfold : ∀ (rest seen : List VsrMessage) (best : LogChoice),
          (∀ d ∈ rest, ∃ log, Decodes lnv d log) → Chosen commit seen lnv best →
          Chosen commit (seen ++ rest) lnv (rest.foldl (LogChoice.consider u) best) := by
        intro rest
        induction rest with
        | nil => intro seen best _ h; simpa using h
        | cons d rest ih =>
            intro seen best hrest h
            obtain ⟨log, hlog⟩ := hrest d (by simp)
            have := ih (seen ++ [d]) (best.consider u d)
              (fun d' hd' => hrest d' (List.mem_cons_of_mem _ hd')) (h.consider hlog)
            simpa using this
      obtain ⟨log, hlog⟩ := hdec first (by simp)
      refine hfold rest [first] _ (fun d hd => hdec d (List.mem_cons_of_mem _ hd)) ?_
      rw [hlog u]
      refine ⟨⟨first, by simp, hlog, rfl⟩, rfl, by simp, ?_⟩
      rcases Nat.le_total commit first.header.commit with hle | hle
      · exact Or.inr ⟨first, by simp, Nat.max_eq_right hle⟩
      · exact Or.inl (Nat.max_eq_left hle)

/-- What can be said of the selection whatever the votes are. -/
structure ChosenFrom (u commit : Nat) (votes : List VsrMessage) (best : LogChoice) : Prop where
  vote : ∃ d ∈ votes, best.op = d.header.op
    ∧ best.payload = (DoViewChangePayload.deserialize d.payload { lastNormalView := u }).2
  le : commit ≤ best.commit
  commit : best.commit = commit ∨ ∃ d ∈ votes, best.commit = d.header.commit

theorem ChosenFrom.consider {u commit : Nat} {votes : List VsrMessage} {best : LogChoice}
    (h : ChosenFrom u commit votes best) (d : VsrMessage) :
    ChosenFrom u commit (votes ++ [d]) (best.consider u d) := by
  obtain ⟨d₀, hd₀, hop, hpayload⟩ := h.vote
  have hold : ∃ d' ∈ votes ++ [d], best.op = d'.header.op
      ∧ best.payload = (DoViewChangePayload.deserialize d'.payload { lastNormalView := u }).2 :=
    ⟨d₀, List.mem_append_left _ hd₀, hop, hpayload⟩
  have hcommit : ∀ k, k = best.commit ∨ k = d.header.commit →
      k = commit ∨ ∃ d' ∈ votes ++ [d], k = d'.header.commit := by
    rintro k (rfl | rfl)
    · exact h.commit.imp_right fun ⟨d', hd', heq⟩ => ⟨d', List.mem_append_left _ hd', heq⟩
    · exact Or.inr ⟨d, by simp, rfl⟩
  have hle : commit ≤ max best.commit d.header.commit := h.le.trans (Nat.le_max_left ..)
  have hmax := hcommit _ (max_choice best.commit d.header.commit)
  unfold LogChoice.consider
  split
  · exact ⟨hold, h.le, hcommit _ (Or.inl rfl)⟩
  · rename_i payload hdec
    have hnew : ∃ d' ∈ votes ++ [d], d.header.op = d'.header.op
        ∧ payload = (DoViewChangePayload.deserialize d'.payload { lastNormalView := u }).2 :=
      ⟨d, by simp, rfl, by rw [hdec]⟩
    simp only []
    split
    · exact ⟨hnew, hle, hmax⟩
    · split
      · exact ⟨hnew, hle, hmax⟩
      · exact ⟨hold, hle, hmax⟩

theorem selectLog_chosenFrom (u commit : Nat) {votes : List VsrMessage} (hne : votes ≠ []) :
    ChosenFrom u commit votes (selectLog u commit votes) := by
  cases votes with
  | nil => exact absurd rfl hne
  | cons first rest =>
      have hfold : ∀ (rest seen : List VsrMessage) (best : LogChoice),
          ChosenFrom u commit seen best →
          ChosenFrom u commit (seen ++ rest) (rest.foldl (LogChoice.consider u) best) := by
        intro rest
        induction rest with
        | nil => intro seen best h; simpa using h
        | cons d rest ih =>
            intro seen best h
            have := ih (seen ++ [d]) (best.consider u d) (h.consider d)
            simpa using this
      refine hfold rest [first] _ ⟨⟨first, by simp, rfl, rfl⟩, Nat.le_max_left .., ?_⟩
      exact (max_choice commit first.header.commit).imp_right fun h => ⟨first, by simp, h⟩

/-! ## Choosing among responses -/

/-- Not ahead of `best`: an earlier view, or the same view and no further. -/
def NotAhead (best m : VsrMessage) : Prop :=
  m.header.view < best.header.view
    ∨ m.header.view = best.header.view ∧ m.header.op ≤ best.header.op

theorem NotAhead.trans {a b c : VsrMessage} (h₁ : NotAhead a b) (h₂ : NotAhead b c) :
    NotAhead a c := by
  unfold NotAhead at *
  omega

theorem betterResponse_cases (best m : VsrMessage) :
    (betterResponse best m = best ∨ betterResponse best m = m)
      ∧ NotAhead (betterResponse best m) best ∧ NotAhead (betterResponse best m) m := by
  unfold betterResponse
  split
  · rename_i h
    exact ⟨Or.inr rfl, Or.inl h, Or.inr ⟨rfl, Nat.le_refl _⟩⟩
  · split
    · rename_i h
      exact ⟨Or.inr rfl, Or.inr ⟨h.1.symm, h.2.le⟩, Or.inr ⟨rfl, Nat.le_refl _⟩⟩
    · refine ⟨Or.inl rfl, Or.inr ⟨rfl, Nat.le_refl _⟩, ?_⟩
      unfold NotAhead
      omega

theorem bestResponse_spec (first : VsrMessage) (rest : List VsrMessage) :
    rest.foldl betterResponse first ∈ first :: rest
      ∧ ∀ m ∈ first :: rest, NotAhead (rest.foldl betterResponse first) m := by
  induction rest generalizing first with
  | nil => simp [NotAhead]
  | cons m rest ih =>
      obtain ⟨hmem, hall⟩ := ih (betterResponse first m)
      obtain ⟨hpick, hfirst, hm⟩ := betterResponse_cases first m
      have hbest := hall _ (List.mem_cons_self ..)
      rw [List.foldl_cons]
      refine ⟨?_, ?_⟩
      · rcases List.mem_cons.mp hmem with heq | hmem
        · rw [heq]
          rcases hpick with hpick | hpick <;> simp [hpick]
        · simp [hmem]
      · intro m' hm'
        rcases List.mem_cons.mp hm' with rfl | hm'
        · exact hbest.trans hfirst
        · rcases List.mem_cons.mp hm' with rfl | hm'
          · exact hbest.trans hm
          · exact hall m' (List.mem_cons_of_mem _ hm')

end VsrKv
