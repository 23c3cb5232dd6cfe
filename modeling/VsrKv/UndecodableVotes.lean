import VsrKv.LogDecoder
import VsrKv.LogSelection

/-!
# Votes that do not decode

`handle_do_view_change` passes over a vote whose payload does not decode,
unless it is the first: whatever was read of that one before the failure
takes part in the comparison. And there is a kind of bad payload that no
place in the list makes harmless. Where the sum of a pointer and a size
read from the payload wraps around, the size passes the check, `assign`
throws `std::length_error`, and the process ends.

The handler is therefore taken on a machine here, with the payloads of the
collected votes somewhere in memory (`Compiled.handleDoViewChange`). While no
sum wraps it is the handler of `Replica`, and what remains is a question
about the selection (`undecodable_doViewChange_harmless_iff`).
-/

namespace VsrKv.Compiled

open BoundedReads Replica

/-! ## The handler on a machine -/

/-- `max_size` of a vector of bytes. -/
def maxSize : Nat := 2 ^ 63 - 1

/-- `do_view_change_payload::deserialize` of the bytes from `start` to `stop`;
`none` if it throws. -/
def DoViewChangePayload.deserialize (mem : BitVec 64 → UInt8) (start stop : BitVec 64)
    (msg : DoViewChangePayload) : Option (Bool × DoViewChangePayload) := do
  let (read, c) ← (readPod 4 LittleEndian.decode : Decoder Nat).call mem stop maxSize
    { ptr := start, out := msg.log }
  match read with
  | none => return (false, msg)
  | some lastNormalView =>
      let (read, c) ← readLogFromBuffer.call mem stop maxSize c
      return (read.isSome, { lastNormalView, log := c.out })

/-- The end of a vector that begins at `start`. -/
def stopOf (start : BitVec 64) (data : Bytes) : BitVec 64 := start + BitVec.ofNat 64 data.length

/-- The turn of the selection loop for a vote whose payload begins at `start`. -/
def LogChoice.consider (mem : BitVec 64 → UInt8) (uninitialized : Nat) (best : LogChoice)
    (vote : BitVec 64 × VsrMessage) : Option LogChoice := do
  let (start, msg) := vote
  let decoded ← DoViewChangePayload.deserialize mem start (stopOf start msg.payload)
    { lastNormalView := uninitialized }
  match decoded with
  | (false, _) => return best
  | (true, payload) =>
      let commit := max best.commit msg.header.commit
      if payload.lastNormalView > best.payload.lastNormalView then
        return { payload, op := msg.header.op, commit }
      else if payload.lastNormalView = best.payload.lastNormalView ∧ msg.header.op > best.op then
        return { payload, op := msg.header.op, commit }
      else return { best with commit }

def selectLog (mem : BitVec 64 → UInt8) (uninitialized commit : Nat) :
    List (BitVec 64 × VsrMessage) → Option LogChoice
  | [] => some { payload := { lastNormalView := uninitialized }, op := 0, commit }
  | (start, first) :: rest => do
      let (_, payload) ← DoViewChangePayload.deserialize mem start (stopOf start first.payload)
        { lastNormalView := uninitialized }
      rest.foldlM (LogChoice.consider mem uninitialized)
        { payload, op := first.header.op, commit := max commit first.header.commit }

/-- The handler copies the collected votes; `addr i` is where the payload of the
`i`-th copy begins. -/
def handleDoViewChange (mem : BitVec 64 → UInt8) (addr : Nat → BitVec 64) (env : Env)
    (r : Replica) (inbound : InboundMessage) : Option Replica :=
  let s := r.state
  let received := s.doViewChangeReceived ++ [inbound.message]
  if received.length ≥ s.faultToleranceF + 1 then do
    let best ← selectLog mem env.uninitialized s.commit (received.mapIdx fun i m => (addr i, m))
    return r.startFrom best
  else some { r with state := { s with doViewChangeReceived := received } }

/-! ## Payloads in memory -/

/-- The memory holds `data` from `start` on, in the half of the address space that
programs have to themselves. -/
structure Placed (mem : BitVec 64 → UInt8) (start : BitVec 64) (data : Bytes) : Prop where
  bytes : elementsAt mem start data.length = data
  below : start.toNat + data.length < 2 ^ 63

/-- No sum of a pointer and a size that is read from a vote's payload wraps around. -/
def SumsFit (start : BitVec 64) (data : Bytes) : Prop :=
  ∀ p ∈ readLogFromBuffer.shortfall (data.drop 4) (start.toNat + 4), p.1 + p.2 < 2 ^ 64

instance (start : BitVec 64) (data : Bytes) : Decidable (SumsFit start data) :=
  inferInstanceAs (Decidable (∀ p ∈ readLogFromBuffer.shortfall _ _, _))

section

variable {mem : BitVec 64 → UInt8} {start : BitVec 64} {data : Bytes}

theorem Placed.toNat_stopOf (h : Placed mem start data) :
    (stopOf start data).toNat = start.toNat + data.length := by
  have := h.below
  rw [stopOf, BitVec.toNat_add, BitVec.toNat_ofNat, Nat.mod_eq_of_lt (by omega),
    Nat.mod_eq_of_lt (by omega)]

theorem Placed.le_stopOf (h : Placed mem start data) : start ≤ stopOf start data := by
  rw [BitVec.le_def, h.toNat_stopOf]
  omega

theorem Placed.toNat_sub (h : Placed mem start data) :
    (stopOf start data - start).toNat = data.length := by
  rw [BitVec.toNat_sub_of_le h.le_stopOf, h.toNat_stopOf]
  omega

theorem Placed.remaining_eq (h : Placed mem start data) :
    remaining mem start (stopOf start data) = data := by
  rw [remaining, h.toNat_sub, h.bytes]

theorem Placed.stopOf_le (h : Placed mem start data) : (stopOf start data).toNat ≤ maxSize := by
  have := h.below
  rw [h.toNat_stopOf, maxSize]
  omega

/-- The first field is read, or the payload is too short for it. -/
theorem Placed.call_readPod (h : Placed mem start data) (log : Log) :
    (readPod 4 LittleEndian.decode : Decoder Nat).call mem (stopOf start data) maxSize
        { ptr := start, out := log }
      = if data.length < 4 then some (none, { ptr := start, out := log })
        else some (some (LittleEndian.decode (data.take 4)),
          ({ ptr := start, out := log } : Cursor 64 Log).advance 4) := by
  have hbelow := h.below
  have hfour : (4 : BitVec 64).toNat = 4 := rfl
  split
  · rename_i hshort
    have hrefused : stopOf start data < start + 4 := by
      refine lt_add_of_refused h.le_stopOf ?_ (by rw [hfour]; omega)
      rw [BitVec.le_def, h.toNat_sub, hfour]
      omega
    rw [readPod, Reader.call, if_pos hrefused]
  · rename_i hlong
    have hfits : (4 : BitVec 64) ≤ stopOf start data - start := by
      rw [BitVec.le_def, h.toNat_sub, hfour]
      omega
    rw [readPod, Reader.call_take_of_fits h.stopOf_le h.le_stopOf hfits, Reader.call]
    rw [← take_remaining mem hfits, h.remaining_eq, hfour]

/-- The rest of the payload, after the first field. -/
theorem Placed.rest (h : Placed mem start data) (hlong : ¬data.length < 4) :
    start + 4 ≤ stopOf start data ∧ (start + 4).toNat = start.toNat + 4
      ∧ remaining mem (start + 4) (stopOf start data) = data.drop 4 := by
  have hfour : (4 : BitVec 64).toNat = 4 := rfl
  have hfits : (4 : BitVec 64) ≤ stopOf start data - start := by
    rw [BitVec.le_def, h.toNat_sub, hfour]
    omega
  refine ⟨add_le_of_fits h.le_stopOf hfits, toNat_add_of_fits h.le_stopOf hfits, ?_⟩
  rw [← drop_remaining mem hfits, h.remaining_eq, hfour]

theorem noWrap_iff_sumsFit (hlong : ¬data.length < 4) (h : Placed mem start data) :
    readLogFromBuffer.NoWrap (remaining mem (start + 4) (stopOf start data)) (start + 4).toNat
      ↔ SumsFit start data := by
  obtain ⟨-, hptr, hrest⟩ := h.rest hlong
  rw [hptr, hrest]
  exact ⟨fun hwrap p hp => hwrap p.1 p.2 hp, fun hsums field size hp => hsums (field, size) hp⟩

/-- Unless a sum wraps, decoding does what it does on the list of the bytes, -/
theorem deserialize_of_sumsFit (h : Placed mem start data) (hsums : SumsFit start data)
    (msg : DoViewChangePayload) :
    DoViewChangePayload.deserialize mem start (stopOf start data) msg
      = some (VsrKv.DoViewChangePayload.deserialize data msg) := by
  rw [DoViewChangePayload.deserialize, h.call_readPod, VsrKv.DoViewChangePayload.deserialize,
    LittleEndian.read]
  split
  · rfl
  · rename_i hlong
    obtain ⟨hle, -, hrest⟩ := h.rest hlong
    let c : Cursor 64 Log := ({ ptr := start, out := msg.log } : Cursor 64 Log).advance 4
    have hwrap : readLogFromBuffer.NoWrap (remaining mem c.ptr (stopOf start data)) c.ptr.toNat :=
      (noWrap_iff_sumsFit hlong h).mpr hsums
    have hcall := Reader.call_eq_exec h.stopOf_le (c := c) hle hwrap
    obtain ⟨hresult, hout⟩ := Reader.exec_eq_parse (c := c) hle hwrap
    rw [show remaining mem c.ptr (stopOf start data) = data.drop 4 from hrest,
      readLogFromBuffer_parse] at hresult hout
    have hlog : c.out = msg.log := rfl
    simp only [Option.bind_eq_bind, Option.bind_some]
    rw [hcall]
    simp only [Option.bind_some, hresult, hout, hlog, Option.map_map, Option.isSome_map]
    rfl

/-- and if one does, it throws. -/
theorem deserialize_of_not_sumsFit (h : Placed mem start data) (hsums : ¬SumsFit start data)
    (msg : DoViewChangePayload) :
    DoViewChangePayload.deserialize mem start (stopOf start data) msg = none := by
  have hbelow := h.below
  have hlong : ¬data.length < 4 := by
    intro hshort
    refine hsums fun p hp => ?_
    -- nothing is left, and the count itself is missing
    have hnil : data.drop 4 = [] := List.drop_eq_nil_of_le (Nat.le_of_lt hshort)
    rw [hnil] at hp
    cases hp
    show start.toNat + 4 + 8 < 2 ^ 64
    omega
  obtain ⟨hle, -, -⟩ := h.rest hlong
  have hcall := Reader.call_eq_none h.stopOf_le
    (by have := h.stopOf_le; rw [maxSize] at this ⊢; omega)
    (c := ({ ptr := start, out := msg.log } : Cursor 64 Log).advance 4) hle
    (fun hwrap => hsums ((noWrap_iff_sumsFit hlong h).mp hwrap))
  rw [DoViewChangePayload.deserialize, h.call_readPod, if_neg hlong]
  simp only [Option.bind_eq_bind, Option.bind_some]
  rw [hcall]
  rfl

end

/-! ## The handler, sums wrapping or not -/

section

variable {mem : BitVec 64 → UInt8} {u : Nat}

theorem consider_of_sumsFit {start : BitVec 64} {msg : VsrMessage}
    (h : Placed mem start msg.payload) (hsums : SumsFit start msg.payload) (best : LogChoice) :
    LogChoice.consider mem u best (start, msg) = some (best.consider u msg) := by
  rw [LogChoice.consider, Replica.LogChoice.consider]
  simp only [deserialize_of_sumsFit h hsums, Option.bind_eq_bind, Option.bind_some]
  obtain ⟨decoded, payload⟩ :=
    VsrKv.DoViewChangePayload.deserialize msg.payload { lastNormalView := u }
  cases decoded with
  | false => rfl
  | true =>
      simp only
      split_ifs <;> rfl

theorem foldlM_consider {votes : List (BitVec 64 × VsrMessage)}
    (h : ∀ v ∈ votes, Placed mem v.1 v.2.payload) (hsums : ∀ v ∈ votes, SumsFit v.1 v.2.payload)
    (best : LogChoice) :
    votes.foldlM (LogChoice.consider mem u) best
      = some ((votes.map (·.2)).foldl (Replica.LogChoice.consider u) best) := by
  induction votes generalizing best with
  | nil => rfl
  | cons v votes ih =>
      have hv := List.mem_cons_self (a := v) (l := votes)
      rw [List.foldlM_cons, consider_of_sumsFit (h v hv) (hsums v hv)]
      exact ih (fun v hv => h v (List.mem_cons_of_mem _ hv))
        (fun v hv => hsums v (List.mem_cons_of_mem _ hv)) _

theorem foldlM_consider_eq_none {votes : List (BitVec 64 × VsrMessage)}
    (h : ∀ v ∈ votes, Placed mem v.1 v.2.payload) {v : BitVec 64 × VsrMessage} (hv : v ∈ votes)
    (hsums : ¬SumsFit v.1 v.2.payload) (best : LogChoice) :
    votes.foldlM (LogChoice.consider mem u) best = none := by
  induction votes generalizing best with
  | nil => cases hv
  | cons head votes ih =>
      rw [List.foldlM_cons]
      rcases List.mem_cons.mp hv with rfl | hv
      · rw [LogChoice.consider]
        simp [deserialize_of_not_sumsFit (h v (List.mem_cons_self ..)) hsums]
      · cases LogChoice.consider mem u best head with
        | none => rfl
        | some next => exact ih (fun v hv => h v (List.mem_cons_of_mem _ hv)) hv next

theorem selectLog_of_sumsFit {votes : List (BitVec 64 × VsrMessage)} (commit : Nat)
    (h : ∀ v ∈ votes, Placed mem v.1 v.2.payload)
    (hsums : ∀ v ∈ votes, SumsFit v.1 v.2.payload) :
    selectLog mem u commit votes = some (Replica.selectLog u commit (votes.map (·.2))) := by
  cases votes with
  | nil => rfl
  | cons v rest =>
      have hv := List.mem_cons_self (a := v) (l := rest)
      rw [selectLog, deserialize_of_sumsFit (h v hv) (hsums v hv)]
      exact foldlM_consider (fun v hv => h v (List.mem_cons_of_mem _ hv))
        (fun v hv => hsums v (List.mem_cons_of_mem _ hv)) _

theorem selectLog_eq_none {votes : List (BitVec 64 × VsrMessage)} (commit : Nat)
    (h : ∀ v ∈ votes, Placed mem v.1 v.2.payload) {v : BitVec 64 × VsrMessage} (hv : v ∈ votes)
    (hsums : ¬SumsFit v.1 v.2.payload) : selectLog mem u commit votes = none := by
  cases votes with
  | nil => cases hv
  | cons head rest =>
      rw [selectLog]
      rcases List.mem_cons.mp hv with rfl | hv
      · simp [deserialize_of_not_sumsFit (h v (List.mem_cons_self ..)) hsums]
      · cases DoViewChangePayload.deserialize mem head.1 (stopOf head.1 head.2.payload)
            { lastNormalView := u } with
        | none => rfl
        | some decoded =>
            exact foldlM_consider_eq_none (fun v hv => h v (List.mem_cons_of_mem _ hv)) hv hsums _

end

/-- What is known of each copy by its place. -/
theorem votes_of_placed {P : BitVec 64 → Bytes → Prop} {addr : Nat → BitVec 64}
    {used : List VsrMessage} (h : ∀ i m, used[i]? = some m → P (addr i) m.payload) :
    ∀ v ∈ used.mapIdx fun i m => (addr i, m), P v.1 v.2.payload := by
  intro v hv
  obtain ⟨i, hi, rfl⟩ := List.mem_mapIdx.mp hv
  exact h i _ (List.getElem?_eq_getElem hi)

theorem map_snd_mapIdx (addr : Nat → BitVec 64) (used : List VsrMessage) :
    (used.mapIdx fun i m => (addr i, m)).map (·.2) = used :=
  List.ext_getElem (by simp) fun i _ _ => by simp

section

variable {mem : BitVec 64 → UInt8} {addr : Nat → BitVec 64} {env : Env} {r : Replica}
  {im : InboundMessage} {used : List VsrMessage}
  (hused : r.state.doViewChangeReceived ++ [im.message] = used)
  (hquorum : r.state.faultToleranceF + 1 ≤ used.length)
  (hplaced : ∀ i m, used[i]? = some m → Placed mem (addr i) m.payload)

include hused hquorum hplaced

theorem handleDoViewChange_of_sumsFit
    (hsums : ∀ i m, used[i]? = some m → SumsFit (addr i) m.payload) :
    handleDoViewChange mem addr env r im = some (r.handleDoViewChange env im) := by
  have hvotes : ∀ v ∈ used.mapIdx fun i m => (addr i, m), SumsFit v.1 v.2.payload :=
    votes_of_placed (P := SumsFit) hsums
  rw [handleDoViewChange, hused, if_pos hquorum,
    selectLog_of_sumsFit _ (votes_of_placed (P := Placed mem) hplaced) hvotes, map_snd_mapIdx]
  unfold Replica.handleDoViewChange
  simp only [hused]
  rw [if_pos hquorum]
  rfl

theorem handleDoViewChange_eq_none {i : Nat} {m : VsrMessage} (hm : used[i]? = some m)
    (hsums : ¬SumsFit (addr i) m.payload) : handleDoViewChange mem addr env r im = none := by
  have hmem : (addr i, m) ∈ used.mapIdx fun i m => (addr i, m) := by
    obtain ⟨hlt, rfl⟩ := List.getElem?_eq_some_iff.mp hm
    exact List.mem_mapIdx.mpr ⟨i, hlt, rfl⟩
  rw [handleDoViewChange, hused, if_pos hquorum,
    selectLog_eq_none _ (votes_of_placed (P := Placed mem) hplaced) hmem hsums]
  rfl

end

end VsrKv.Compiled

namespace VsrKv

open Replica Selection

/-! ## What the selection makes of a bad vote -/

/-- After completing with the messages `used`, the replica has the log, the op
and the commit number that the decodable ones among them yield; if there are
none, its own. -/
def AdoptsDecodable (u : Nat) (used : List VsrMessage) (s s' : ReplicaState) : Prop :=
  if used.filter decodes = [] then s'.log = s.log ∧ s'.op = s.op ∧ s'.commit = s.commit
  else
    s'.log = (selectLog u s.commit (used.filter decodes)).payload.log
      ∧ s'.op = (selectLog u s.commit (used.filter decodes)).op
      ∧ s'.commit = (selectLog u s.commit (used.filter decodes)).commit

/-- What is left over of a first message that does not decode has no effect,
`others` being the messages that do: its commit number is no news, and it
either loses the comparison or happens to be what there would be without it. -/
def Harmless (u : Nat) (s : ReplicaState) (first : VsrMessage) (others : List VsrMessage) :
    Prop :=
  (first.header.commit ≤ s.commit ∨ ∃ m ∈ others, first.header.commit ≤ m.header.commit)
    ∧ if others = [] then (leftover u first).1.log = s.log ∧ first.header.op = s.op
      else (∃ m ∈ others, ∃ c ∈ candidate? m, rank (leftover u first) < rank c)
        ∨ (leftover u first).1.log = (selectLog u s.commit others).payload.log
          ∧ first.header.op = (selectLog u s.commit others).op

theorem filterMap_filter_decodes (msgs : List VsrMessage) :
    (msgs.filter decodes).filterMap candidate? = msgs.filterMap candidate? := by
  induction msgs with
  | nil => rfl
  | cons m msgs ih =>
      cases h : candidate? m with
      | none => simp [decodes, h, ih]
      | some c => simp [decodes, h, ih]

@[simp] theorem highestCommit_filter_decodes (commit : Nat) (msgs : List VsrMessage) :
    highestCommit commit (msgs.filter decodes) = highestCommit commit msgs := by
  rw [highestCommit, highestCommit, List.filter_filter]
  simp

theorem highestCommit_max (commit n : Nat) (msgs : List VsrMessage) :
    highestCommit (max commit n) msgs = max (highestCommit commit msgs) n := by
  rw [highestCommit, highestCommit]
  generalize (msgs.filter decodes).map (·.header.commit) = l
  induction l generalizing commit with
  | nil => rfl
  | cons a l ih => rw [List.foldl_cons, max_right_comm, ih, List.foldl_cons]

theorem le_highestCommit_iff (commit n : Nat) (msgs : List VsrMessage) :
    n ≤ highestCommit commit msgs
      ↔ n ≤ commit ∨ ∃ m ∈ msgs.filter decodes, n ≤ m.header.commit := by
  obtain ⟨hmem, hub⟩ := highestCommit_isGreatest commit msgs
  constructor
  · intro hn
    rcases hmem with heq | ⟨m, hm, hdec, heq⟩
    · exact Or.inl (hn.trans (Set.mem_singleton_iff.mp heq).le)
    · exact Or.inr ⟨m, List.mem_filter.mpr ⟨hm, hdec⟩, heq ▸ hn⟩
  · rintro (hn | ⟨m, hm, hn⟩)
    · exact hn.trans (hub (Or.inl rfl))
    · obtain ⟨hm, hdec⟩ := List.mem_filter.mp hm
      exact hn.trans (hub (Or.inr ⟨m, hm, hdec, rfl⟩))

/-- With a first message that decodes, the others that do not are passed over. -/
theorem selectLog_filter (u commit : Nat) {first : VsrMessage} (rest : List VsrMessage)
    (h : decodes first = true) :
    selectLog u commit ((first :: rest).filter decodes) = selectLog u commit (first :: rest) := by
  obtain ⟨c, hc⟩ := Option.isSome_iff_exists.mp h
  rw [List.filter_cons_of_pos h, selectLog_of_candidate u commit _ hc,
    selectLog_of_candidate u commit rest hc, filterMap_filter_decodes,
    ← List.filter_cons_of_pos h, highestCommit_filter_decodes]

section

variable {u : Nat} {s : ReplicaState} {first : VsrMessage} {rest : List VsrMessage}

/-- Alone among messages that do not decode, the first is adopted as it is. -/
theorem harmless_of_none (hothers : rest.filter decodes = []) :
    ((selectLog u s.commit (first :: rest)).payload.log = s.log
        ∧ (selectLog u s.commit (first :: rest)).op = s.op
        ∧ (selectLog u s.commit (first :: rest)).commit = s.commit)
      ↔ Harmless u s first [] := by
  have hcands : rest.filterMap candidate? = [] := by
    rw [← filterMap_filter_decodes, hothers, List.filterMap_nil]
  have hcommit : highestCommit s.commit rest = s.commit := by
    rw [highestCommit, hothers, List.map_nil, List.foldl_nil]
  rw [selectLog_cons, hcands, List.foldl_nil, highestCommit_max, hcommit, Harmless, if_pos rfl]
  simp only [List.not_mem_nil, false_and, exists_false, or_false, max_eq_left_iff]
  constructor
  · rintro ⟨hlog, hop, hc⟩
    exact ⟨hc, hlog, hop⟩
  · rintro ⟨hc, hlog, hop⟩
    exact ⟨hlog, hop, hc⟩

/-- Among others that do, it competes with the best of them. -/
theorem harmless_of_some (hothers : rest.filter decodes ≠ []) :
    ((selectLog u s.commit (first :: rest)).payload.log
          = (selectLog u s.commit (rest.filter decodes)).payload.log
        ∧ (selectLog u s.commit (first :: rest)).op
          = (selectLog u s.commit (rest.filter decodes)).op
        ∧ (selectLog u s.commit (first :: rest)).commit
          = (selectLog u s.commit (rest.filter decodes)).commit)
      ↔ Harmless u s first (rest.filter decodes) := by
  have hle := le_highestCommit_iff s.commit first.header.commit rest
  rw [Harmless, if_neg hothers]
  obtain ⟨d, ds, hds⟩ := List.exists_cons_of_ne_nil hothers
  have hmem : d ∈ rest.filter decodes := hds ▸ List.mem_cons_self ..
  obtain ⟨c, hc⟩ := Option.isSome_iff_exists.mp (List.mem_filter.mp hmem).2
  have hcands : rest.filterMap candidate? = c :: ds.filterMap candidate? := by
    rw [← filterMap_filter_decodes, hds, List.filterMap_cons_some hc]
  have hexpected : selectLog u s.commit (rest.filter decodes)
      = { payload := ((ds.filterMap candidate?).foldl (pick rank) c).1
          op := ((ds.filterMap candidate?).foldl (pick rank) c).2
          commit := highestCommit s.commit rest } := by
    rw [hds, selectLog_of_candidate u s.commit ds hc, ← hds, highestCommit_filter_decodes]
  have hbeaten : (∃ m ∈ rest.filter decodes, ∃ c' ∈ candidate? m, rank (leftover u first) < rank c')
      ↔ rank (leftover u first) < rank ((ds.filterMap candidate?).foldl (pick rank) c) := by
    constructor
    · rintro ⟨m, hm, c', hc', hlt⟩
      refine hlt.trans_le (key_le_foldl_pick ?_)
      rw [← hcands]
      exact List.mem_filterMap.mpr ⟨m, (List.mem_filter.mp hm).1, hc'⟩
    · intro hlt
      have hbest : (ds.filterMap candidate?).foldl (pick rank) c ∈ _ := foldl_pick_mem c _
      rw [← hcands, ← filterMap_filter_decodes, List.mem_filterMap] at hbest
      obtain ⟨m, hm, hbest⟩ := hbest
      exact ⟨m, hm, _, hbest, hlt⟩
  rw [hbeaten, ← hle, hexpected, selectLog_cons, hcands, foldl_pick_cons, highestCommit_max]
  simp only [max_eq_left_iff]
  by_cases hlt : rank (leftover u first) < rank ((ds.filterMap candidate?).foldl (pick rank) c)
  · simp [pick, hlt]
  · simp only [pick, hlt, if_false, false_or]
    constructor
    · rintro ⟨hlog, hop, hc⟩
      exact ⟨hc, hlog, hop⟩
    · rintro ⟨hc, hlog, hop⟩
      exact ⟨hlog, hop, hc⟩

end

/-- While no sum wraps, the messages that do not decode have no say in what is adopted
exactly if the first one handled decodes or what is left over of it is harmless. -/
theorem adoptsDecodable_iff (env : Env) (r : Replica) (im : InboundMessage)
    {first : VsrMessage} {rest : List VsrMessage}
    (hused : r.state.doViewChangeReceived ++ [im.message] = first :: rest)
    (hquorum : r.state.faultToleranceF + 1 ≤ (first :: rest).length) :
    AdoptsDecodable env.uninitialized (first :: rest) r.state (r.handleDoViewChange env im).state
      ↔ decodes first = true
        ∨ Harmless env.uninitialized r.state first (rest.filter decodes) := by
  have hfinal : r.handleDoViewChange env im
      = r.startFrom (selectLog env.uninitialized r.state.commit (first :: rest)) := by
    unfold handleDoViewChange
    simp only [hused]
    rw [if_pos hquorum]
    rfl
  obtain ⟨⟨n, t, machine, hstate⟩, -⟩ :=
    startFrom_same r (selectLog env.uninitialized r.state.commit (first :: rest))
  rw [hfinal, hstate, AdoptsDecodable]
  by_cases hfirst : decodes first = true
  · rw [if_neg (by simp [hfirst]), selectLog_filter _ _ _ hfirst]
    simp [hfirst, startedState]
  · rw [List.filter_cons_of_neg hfirst]
    simp only [hfirst, Bool.false_eq_true, false_or]
    by_cases hothers : rest.filter decodes = []
    · rw [if_pos hothers, hothers]
      exact harmless_of_none hothers
    · rw [if_neg hothers]
      exact harmless_of_some hothers

/-- In a payload that decodes, nothing is missing. -/
theorem sumsFit_of_decodes {msg : VsrMessage} (h : decodes msg = true) (start : BitVec 64) :
    Compiled.SumsFit start msg.payload := by
  obtain ⟨c, hc⟩ := Option.isSome_iff_exists.mp h
  obtain ⟨hpayload, -⟩ := deserialize_of_candidate hc 0
  have hread : (Compiled.readLogFromBuffer.parse (msg.payload.drop 4) ∅).1.isSome = true := by
    rw [Compiled.readLogFromBuffer_parse, Option.isSome_map]
    unfold DoViewChangePayload.deserialize at hpayload
    cases hlast : LittleEndian.read 4 msg.payload with
    | none => simp [hlast] at hpayload
    | some p =>
        rw [hlast] at hpayload
        rw [LittleEndian.read, Option.ite_none_left_eq_some, Option.some.injEq] at hlast
        obtain ⟨-, rfl⟩ := hlast
        exact (Prod.mk.inj hpayload).1
  intro p hp
  rw [BoundedReads.Reader.shortfall_eq_none hread] at hp
  cases hp

/-- The messages that do not decode have no say in what is adopted, exactly if no size
read from any of them makes a sum wrap, and the first one handled decodes or what is left
over of it is harmless. -/
theorem undecodable_doViewChange_harmless_iff (env : Env) (r : Replica) (im : InboundMessage)
    {first : VsrMessage} {rest : List VsrMessage} {mem : BitVec 64 → UInt8}
    {addr : Nat → BitVec 64}
    (hused : r.state.doViewChangeReceived ++ [im.message] = first :: rest)
    (hquorum : r.state.faultToleranceF + 1 ≤ (first :: rest).length)
    (hplaced : ∀ i m, (first :: rest)[i]? = some m → Compiled.Placed mem (addr i) m.payload) :
    (∃ r' ∈ Compiled.handleDoViewChange mem addr env r im,
        AdoptsDecodable env.uninitialized (first :: rest) r.state r'.state)
      ↔ (∀ i m, (first :: rest)[i]? = some m → Compiled.SumsFit (addr i) m.payload)
        ∧ (decodes first = true
          ∨ Harmless env.uninitialized r.state first (rest.filter decodes)) := by
  constructor
  · rintro ⟨r', hr', hadopts⟩
    have hsums : ∀ i m, (first :: rest)[i]? = some m → Compiled.SumsFit (addr i) m.payload := by
      intro i m hm
      by_contra hwraps
      rw [Compiled.handleDoViewChange_eq_none hused hquorum hplaced hm hwraps] at hr'
      cases hr'
    rw [Compiled.handleDoViewChange_of_sumsFit hused hquorum hplaced hsums] at hr'
    obtain rfl := Option.some.inj hr'
    exact ⟨hsums, (adoptsDecodable_iff env r im hused hquorum).mp hadopts⟩
  · rintro ⟨hsums, hharmless⟩
    exact ⟨_, Compiled.handleDoViewChange_of_sumsFit hused hquorum hplaced hsums,
      (adoptsDecodable_iff env r im hused hquorum).mpr hharmless⟩

/-- A `DoViewChange` for view 1 whose payload ends after `last_normal_view`. -/
def cutShort : VsrMessage where
  header := { command := .doViewChange, view := 1, op := 5, replica := 0 }
  payload := [0, 0, 0, 0]

/-- The prospective primary of view 1 with op 1 in its log, and these votes. -/
def prospectiveLogged (votes : List VsrMessage) : Replica :=
  { state := { loggedOne with
      id := 1, status := .viewChange, view := 1, doViewChangeReceived := votes } }

def ownVote : VsrMessage := doViewChangeMessage (prospectiveLogged []).state

/-- Two payloads, one at 4096 and one at 65536. -/
def twoPayloads (data data' : Bytes) (a : BitVec 64) : UInt8 :=
  if a < 65536 then Compiled.memoryAt 4096 data a else Compiled.memoryAt 65536 data' a

def twoAddresses (i : Nat) : BitVec 64 := if i = 0 then 4096 else 65536

theorem forall_two {P : Nat → VsrMessage → Prop} {first second : VsrMessage}
    (hfirst : P 0 first) (hsecond : P 1 second) :
    ∀ i m, [first, second][i]? = some m → P i m := by
  intro i m hm
  match i with
  | 0 => exact Option.some.inj hm ▸ hfirst
  | 1 => exact Option.some.inj hm ▸ hsecond
  | i + 2 => cases hm

/-- Handled second, the message is passed over. -/
theorem cutShort_second_harmless :
    let r := prospectiveLogged [ownVote]
    let mem := twoPayloads ownVote.payload cutShort.payload
    decodes ownVote = true ∧ decodes cutShort = false
      ∧ ∃ r' ∈ Compiled.handleDoViewChange mem twoAddresses {} r ⟨.peer 0, cutShort⟩,
        AdoptsDecodable 0 [ownVote, cutShort] r.state r'.state := by
  intro r mem
  have hfirst : decodes ownVote = true := by decide +kernel
  have hplaced : ∀ i m, [ownVote, cutShort][i]? = some m →
      Compiled.Placed mem (twoAddresses i) m.payload :=
    forall_two ⟨by decide +kernel, by decide +kernel⟩ ⟨by decide +kernel, by decide +kernel⟩
  have hsums : ∀ i m, [ownVote, cutShort][i]? = some m →
      Compiled.SumsFit (twoAddresses i) m.payload :=
    forall_two (sumsFit_of_decodes hfirst _) (by decide +kernel)
  have hused : r.state.doViewChangeReceived ++ [cutShort] = ownVote :: [cutShort] := rfl
  have hiff := undecodable_doViewChange_harmless_iff {} r ⟨.peer 0, cutShort⟩ hused
    (by decide +kernel) hplaced
  exact ⟨hfirst, by decide +kernel, hiff.mpr ⟨hsums, Or.inl hfirst⟩⟩

/-- Handled first, it replaces the log by an empty one with op number 5. -/
theorem cutShort_first_adopted :
    let r := prospectiveLogged [cutShort]
    let mem := twoPayloads cutShort.payload ownVote.payload
    decodes ownVote = true ∧ decodes cutShort = false ∧ ownVote.header.op = 1
      ∧ ∃ r', Compiled.handleDoViewChange mem twoAddresses {} r ⟨.null, ownVote⟩ = some r'
        ∧ r'.state.op = 5 ∧ r'.state.log.size = 0
        ∧ ¬AdoptsDecodable 0 [cutShort, ownVote] r.state r'.state := by
  intro r mem
  have hplaced : ∀ i m, [cutShort, ownVote][i]? = some m →
      Compiled.Placed mem (twoAddresses i) m.payload :=
    forall_two ⟨by decide +kernel, by decide +kernel⟩ ⟨by decide +kernel, by decide +kernel⟩
  have hdecodes : decodes ownVote = true := by decide +kernel
  have hsums : ∀ i m, [cutShort, ownVote][i]? = some m →
      Compiled.SumsFit (twoAddresses i) m.payload :=
    forall_two (by decide +kernel) (sumsFit_of_decodes hdecodes _)
  have hop : (r.handleDoViewChange {} ⟨.null, ownVote⟩).state.op = 5 := by decide +kernel
  refine ⟨hdecodes, by decide +kernel, rfl, _,
    Compiled.handleDoViewChange_of_sumsFit rfl (by decide +kernel) hplaced hsums, hop,
    by decide +kernel, ?_⟩
  intro h
  rw [AdoptsDecodable, if_neg (by decide +kernel)] at h
  rw [h.2.1] at hop
  exact absurd hop (by decide +kernel)

/-- A payload whose one entry claims a size of `2 ^ 64 - 1`. -/
def wrapsAround : VsrMessage := { cutShort with
  payload := [0, 0, 0, 0] ++ Compiled.cutShort (2 ^ 64 - 1) }

example : decodes wrapsAround = false
    ∧ (Compiled.handleDoViewChange (twoPayloads ownVote.payload wrapsAround.payload) twoAddresses
      {} (prospectiveLogged [ownVote]) ⟨.peer 0, wrapsAround⟩).isNone = true := by
  decide +kernel

end VsrKv
