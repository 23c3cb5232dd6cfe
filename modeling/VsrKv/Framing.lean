import Mathlib.Data.List.Basic

/-!
# Cutting messages out of a stream

A reader that keeps what it has received and not yet used in a buffer,
and after each arrival takes complete messages off the front for as long
as there are any. What stands at the front is decided by a function
`next` of the buffer: nothing yet (`wait`), something that is no message
(`bad`, and the reader gives up), or a message and its length.

How the stream was cut into arrivals cannot be seen afterwards when
`next`, once it has decided, does not change its mind as more bytes
arrive (`Stable`): `feed_eq_run` says that feeding chunks one by one is
one `run` over their concatenation. Nothing here knows what the elements
or the messages are.
-/

namespace Framing

variable {α β : Type}

/-- What is at the front of a buffer. -/
inductive Frame (β : Type) where
  | wait
  | bad
  | message (m : β) (size : Nat)
deriving Repr, DecidableEq

section

variable (next : List α → Frame β)

/-- The reader's loop: the messages taken off, and the rest of the buffer
unless the reader gave up. -/
def drain : Nat → List α → List β × Option (List α)
  | 0, buf => ([], some buf)
  | fuel + 1, buf =>
      match next buf with
      | .wait => ([], some buf)
      | .bad => ([], none)
      | .message m size =>
          let (ms, rest) := drain fuel (buf.drop size)
          (m :: ms, rest)

/-- Every message takes something off the buffer, so the loop makes no more
rounds than there are elements. -/
def run (buf : List α) : List β × Option (List α) := drain next buf.length buf

/-- One arrival. A reader that has given up stays so. -/
def receive (buffer : Option (List α)) (data : List α) : List β × Option (List α) :=
  match buffer with
  | none => ([], none)
  | some buf => run next (buf ++ data)

/-- The arrivals of a whole connection, in order. -/
def feed (buffer : Option (List α)) : List (List α) → List β × Option (List α)
  | [] => ([], buffer)
  | data :: chunks =>
      let (ms, buffer') := receive next buffer data
      let (ms', buffer'') := feed buffer' chunks
      (ms ++ ms', buffer'')

/-- A decision that later bytes do not change. -/
structure Stable : Prop where
  empty : next [] = .wait
  size_pos {buf m size} : next buf = .message m size → 0 < size
  size_le {buf m size} : next buf = .message m size → size ≤ buf.length
  bad_append {buf} (more) : next buf = .bad → next (buf ++ more) = .bad
  message_append {buf m size} (more) : next buf = .message m size →
    next (buf ++ more) = .message m size

end

variable {next : List α → Frame β}

/-! ## The loop -/

theorem run_wait {buf : List α} (h : next buf = .wait) : run next buf = ([], some buf) := by
  unfold run
  cases buf.length with
  | zero => rfl
  | succ n => rw [drain, h]

theorem run_bad (hs : Stable next) {buf : List α} (h : next buf = .bad) :
    run next buf = ([], none) := by
  unfold run
  cases hlen : buf.length with
  | zero =>
      rw [List.length_eq_zero_iff.mp hlen, hs.empty] at h
      cases h
  | succ n => rw [drain, h]

/-- Fuel beyond the length of the buffer changes nothing. -/
theorem drain_eq_drain (hs : Stable next) {fuel fuel' : Nat} {buf : List α}
    (h : buf.length ≤ fuel) (h' : buf.length ≤ fuel') :
    drain next fuel buf = drain next fuel' buf := by
  induction fuel generalizing buf fuel' with
  | zero =>
      have hnil : buf = [] := List.length_eq_zero_iff.mp (by omega)
      subst hnil
      cases fuel' with
      | zero => rfl
      | succ fuel' => rw [drain, drain, hs.empty]
  | succ fuel ih =>
      cases fuel' with
      | zero =>
          have hnil : buf = [] := List.length_eq_zero_iff.mp (by omega)
          rw [hnil, drain, drain, hs.empty]
      | succ fuel' =>
          rw [drain, drain]
          cases hnext : next buf with
          | wait => rfl
          | bad => rfl
          | message m size =>
              have hpos := hs.size_pos hnext
              have hdrop := List.length_drop (i := size) (l := buf)
              have hrest : drain next fuel (buf.drop size) = drain next fuel' (buf.drop size) :=
                ih (by omega) (by omega)
              simp only [hrest]

theorem run_message (hs : Stable next) {buf : List α} {m : β} {size : Nat}
    (h : next buf = .message m size) :
    run next buf = (m :: (run next (buf.drop size)).1, (run next (buf.drop size)).2) := by
  have hpos := hs.size_pos h
  have hle := hs.size_le h
  obtain ⟨n, hn⟩ : ∃ n, buf.length = n + 1 := ⟨buf.length - 1, by omega⟩
  have hdrop := List.length_drop (i := size) (l := buf)
  have hrest : drain next n (buf.drop size) = run next (buf.drop size) :=
    drain_eq_drain hs (by omega) Nat.le.refl
  rw [run, hn, drain, h]
  simp only [hrest]

/-- Induction along the loop. -/
theorem run_induction (hs : Stable next) {P : List α → Prop}
    (hwait : ∀ buf, next buf = .wait → P buf) (hbad : ∀ buf, next buf = .bad → P buf)
    (hmessage : ∀ buf m size, next buf = .message m size → P (buf.drop size) → P buf)
    (buf : List α) : P buf := by
  induction hlen : buf.length using Nat.strongRecOn generalizing buf with
  | _ n ih =>
      cases hnext : next buf with
      | wait => exact hwait buf hnext
      | bad => exact hbad buf hnext
      | message m size =>
          have hpos := hs.size_pos hnext
          have hle := hs.size_le hnext
          have hdrop := List.length_drop (i := size) (l := buf)
          exact hmessage buf m size hnext (ih _ (by omega) (buf.drop size) rfl)

/-- The loop stops for want of bytes, never for want of fuel. -/
theorem next_of_run (hs : Stable next) {buf rest : List α} (h : (run next buf).2 = some rest) :
    next rest = .wait := by
  induction buf using run_induction hs with
  | hwait buf hnext =>
      rw [run_wait hnext] at h
      cases h
      exact hnext
  | hbad buf hnext =>
      rw [run_bad hs hnext] at h
      cases h
  | hmessage buf m size hnext ih =>
      rw [run_message hs hnext] at h
      exact ih h

/-- What is taken off has been at the front of some buffer. -/
theorem forall_mem_run (hs : Stable next) {P : β → Prop}
    (h : ∀ buf m size, next buf = .message m size → P m) (buf : List α) :
    ∀ m ∈ (run next buf).1, P m := by
  induction buf using run_induction hs with
  | hwait buf hnext =>
      rw [run_wait hnext]
      exact List.forall_mem_nil _
  | hbad buf hnext =>
      rw [run_bad hs hnext]
      exact List.forall_mem_nil _
  | hmessage buf m size hnext ih =>
      rw [run_message hs hnext]
      exact List.forall_mem_cons.mpr ⟨h buf m size hnext, ih⟩

/-- What is taken off has been in the buffer, message by message. -/
theorem run_consumes (hs : Stable next) {write : β → List α}
    (h : ∀ buf m size, next buf = .message m size → write m = buf.take size) (buf : List α) :
    ∃ rest, buf = ((run next buf).1.map write).flatten ++ rest := by
  induction buf using run_induction hs with
  | hwait buf hnext =>
      rw [run_wait hnext]
      exact ⟨buf, rfl⟩
  | hbad buf hnext =>
      rw [run_bad hs hnext]
      exact ⟨buf, rfl⟩
  | hmessage buf m size hnext ih =>
      obtain ⟨rest, hrest⟩ := ih
      refine ⟨rest, ?_⟩
      rw [run_message hs hnext, List.map_cons, List.flatten_cons, h buf m size hnext,
        List.append_assoc, ← hrest, List.take_append_drop]

/-! ## Arrivals -/

/-- More bytes after a run: the run goes on from where it stopped. -/
theorem run_append (hs : Stable next) (buf more : List α) :
    run next (buf ++ more)
      = ((run next buf).1 ++ (receive next (run next buf).2 more).1,
          (receive next (run next buf).2 more).2) := by
  induction buf using run_induction hs with
  | hwait buf hnext => simp only [run_wait hnext, receive, List.nil_append]
  | hbad buf hnext =>
      simp only [run_bad hs hnext, run_bad hs (hs.bad_append more hnext), receive, List.append_nil]
  | hmessage buf m size hnext ih =>
      rw [run_message hs hnext, run_message hs (hs.message_append more hnext),
        List.drop_append_of_le_length (hs.size_le hnext), ih]
      rfl

/-- Feeding a stream in pieces is one run over the whole. -/
theorem feed_eq_run (hs : Stable next) {buf : List α} (hbuf : next buf = .wait)
    (chunks : List (List α)) :
    feed next (some buf) chunks = run next (buf ++ chunks.flatten) := by
  suffices hfeed : ∀ pre, feed next (run next pre).2 chunks
      = (receive next (run next pre).2 chunks.flatten) by
    have hpre := hfeed buf
    rw [run_wait hbuf] at hpre
    exact hpre
  induction chunks with
  | nil =>
      intro pre
      cases hrest : (run next pre).2 with
      | none => rfl
      | some rest =>
          show ([], some rest) = run next (rest ++ [])
          rw [List.append_nil, run_wait (next_of_run hs hrest)]
  | cons data chunks ih =>
      intro pre
      cases hrest : (run next pre).2 with
      | none =>
          have hclosed := ih pre
          rw [hrest] at hclosed
          rw [feed, receive]
          simp only [hclosed]
          rfl
      | some rest =>
          show (_ , _) = run next (rest ++ (data ++ chunks.flatten))
          rw [← List.append_assoc, run_append hs (rest ++ data), ← ih (rest ++ data)]
          rfl

/-- Two ways of cutting one stream give the same messages and end alike. -/
theorem feed_eq_feed (hs : Stable next) {buf : List α} (hbuf : next buf = .wait)
    {chunks chunks' : List (List α)} (h : chunks.flatten = chunks'.flatten) :
    feed next (some buf) chunks = feed next (some buf) chunks' := by
  rw [feed_eq_run hs hbuf, feed_eq_run hs hbuf, h]

/-! ## Streams of messages -/

/-- Messages written one after the other are taken off one after the
other. -/
theorem run_frames (hs : Stable next) {write : β → List α} {read : β → β} {ms : List β}
    (h : ∀ m ∈ ms, ∀ more, next (write m ++ more) = .message (read m) (write m).length) :
    run next (ms.map write).flatten = (ms.map read, some []) := by
  induction ms with
  | nil => exact run_wait hs.empty
  | cons m ms ih =>
      have hms : run next (ms.map write).flatten = (ms.map read, some []) :=
        ih fun m' hm' => h m' (List.mem_cons_of_mem m hm')
      have hm := h m (List.mem_cons_self ..) (ms.map write).flatten
      rw [List.map_cons, List.flatten_cons, run_message hs hm, List.drop_left, hms, List.map_cons]

end Framing
