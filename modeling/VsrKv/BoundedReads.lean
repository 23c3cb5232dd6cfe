import Mathlib.Data.BitVec
import Mathlib.Data.List.Infix

/-!
# Reading a buffer through a pointer

A reading program asks for the next so many elements of a buffer, goes on
with what it gets, and may put something aside on its way; how much it asks
for may depend on what it has read. It has two meanings. On a list
(`Reader.parse`) a request is granted if that many elements are left. On a
machine (`Reader.exec`) there is a pointer of `w` bits and an end, and a
request is granted if the sum of the pointer and the size, modulo `2 ^ w`, is
not beyond the end.

The two differ where the sum wraps around. A request that fits never wraps;
one that does not, and wraps, is granted (`granted_iff`). So a program
stays inside its buffer just if the first request that does not fit, if there
is one, ends below `2 ^ w` (`Reader.inside_iff`), and then it does what it
does on the list (`Reader.exec_eq_parse`).

Where what is granted is copied into a container that cannot be longer than
`limit`, the copy of a request that wraps around throws (`Reader.call`), and
whether there is a copy that throws is the same question
(`Reader.call_eq_exec`, `Reader.call_eq_none`).
-/

namespace BoundedReads

variable {w : Nat} {β σ α γ : Type}

/-! ## Programs -/

/-- `take` asks for elements, `leave` writes to what is left behind, also by a
program that fails later. -/
inductive Reader (w : Nat) (β σ α : Type) where
  | done (a : α)
  | take (n : BitVec w) (next : List β → Reader w β σ α)
  | leave (f : σ → σ) (next : Reader w β σ α)

namespace Reader

def bind : Reader w β σ α → (α → Reader w β σ γ) → Reader w β σ γ
  | .done a, k => k a
  | .take n next, k => .take n fun bs => (next bs).bind k
  | .leave f next, k => .leave f (next.bind k)

instance : Monad (Reader w β σ) where
  pure := .done
  bind := bind

/-- The meaning on a list: the result with the rest of the list, and what is
left behind. -/
def parse : Reader w β σ α → List β → σ → Option (α × List β) × σ
  | .done a, buf, out => (some (a, buf), out)
  | .take n next, buf, out =>
      if buf.length < n.toNat then (none, out)
      else (next (buf.take n.toNat)).parse (buf.drop n.toNat) out
  | .leave f next, buf, out => next.parse buf (f out)

/-- The first request that does not fit: where, counted from `pos`, and for how
many. -/
def shortfall : Reader w β σ α → List β → Nat → Option (Nat × Nat)
  | .done _, _, _ => none
  | .take n next, buf, pos =>
      if buf.length < n.toNat then some (pos, n.toNat)
      else (next (buf.take n.toNat)).shortfall (buf.drop n.toNat) (pos + n.toNat)
  | .leave _ next, buf, pos => next.shortfall buf pos

theorem parse_bind (r : Reader w β σ α) (k : α → Reader w β σ γ) (buf : List β) (out : σ) :
    (r >>= k).parse buf out
      = match r.parse buf out with
        | (none, out) => (none, out)
        | (some (a, rest), out) => (k a).parse rest out := by
  show (r.bind k).parse buf out = _
  induction r generalizing buf out with
  | done a => rfl
  | take n next ih =>
      rw [bind, parse, parse]
      split
      · rfl
      · exact ih ..
  | leave f next ih => exact ih ..

/-- A list that is read to the end has no request that does not fit. -/
theorem shortfall_eq_none {r : Reader w β σ α} {buf : List β} {out : σ}
    (h : (r.parse buf out).1.isSome = true) (pos : Nat) : r.shortfall buf pos = none := by
  induction r generalizing buf out pos with
  | done a => rfl
  | take n next ih =>
      rw [parse] at h
      rw [shortfall]
      split at h
      · cases h
      · rename_i hfits
        rw [if_neg hfits]
        exact ih _ h _
  | leave f next ih => exact ih h _

/-- `r` leaves nothing behind, and reads a list as `f` does. -/
def Parses (r : Reader w β σ α) (f : List β → Option (α × List β)) : Prop :=
  ∀ buf out, r.parse buf out = (f buf, out)

theorem Parses.take (n : BitVec w) (value : List β → α) :
    Parses (Reader.take n fun bs => .done (value bs) : Reader w β σ α) fun buf =>
      if buf.length < n.toNat then none
      else some (value (buf.take n.toNat), buf.drop n.toNat) := by
  intro buf out
  by_cases h : buf.length < n.toNat
  · simp [parse, h]
  · simp [parse, h]

/-- The second program is only asked about values the first one can return. -/
theorem Parses.bind {r : Reader w β σ α} {f : List β → Option (α × List β)} (hr : r.Parses f)
    {k : α → Reader w β σ γ} {g : α × List β → Option (γ × List β)}
    (hk : ∀ a, (∃ buf rest, f buf = some (a, rest)) → (k a).Parses fun rest => g (a, rest)) :
    (r >>= k).Parses fun buf => f buf >>= g := by
  intro buf out
  rw [parse_bind, hr]
  cases h : f buf with
  | none => simp [h]
  | some p => simpa [h] using hk p.1 ⟨buf, p.2, h⟩ p.2 out

end Reader

/-! ## Memory -/

/-- The `n` elements from `ptr` on; addresses wrap around. -/
def elementsAt (mem : BitVec w → β) (ptr : BitVec w) (n : Nat) : List β :=
  (List.range n).map fun i => mem (ptr + BitVec.ofNat w i)

@[simp] theorem length_elementsAt (mem : BitVec w → β) (ptr : BitVec w) (n : Nat) :
    (elementsAt mem ptr n).length = n := by
  simp [elementsAt]

theorem take_elementsAt (mem : BitVec w → β) (ptr : BitVec w) {m n : Nat} (h : m ≤ n) :
    (elementsAt mem ptr n).take m = elementsAt mem ptr m := by
  rw [elementsAt, ← List.map_take, List.take_range, Nat.min_eq_left h]
  rfl

theorem drop_elementsAt (mem : BitVec w → β) (ptr : BitVec w) (m n : Nat) :
    (elementsAt mem ptr n).drop m = elementsAt mem (ptr + BitVec.ofNat w m) (n - m) := by
  refine List.ext_getElem (by simp) ?_
  intro i _ _
  simp [elementsAt, BitVec.add_assoc, BitVec.ofNat_add]

/-- What lies between the pointer and the end. -/
def remaining (mem : BitVec w → β) (ptr stop : BitVec w) : List β :=
  elementsAt mem ptr (stop - ptr).toNat

@[simp] theorem length_remaining (mem : BitVec w → β) (ptr stop : BitVec w) :
    (remaining mem ptr stop).length = (stop - ptr).toNat :=
  length_elementsAt ..

theorem length_remaining_lt (mem : BitVec w → β) {ptr stop n : BitVec w} :
    (remaining mem ptr stop).length < n.toNat ↔ ¬n ≤ stop - ptr := by
  rw [length_remaining, BitVec.le_def, not_le]

theorem take_remaining (mem : BitVec w → β) {ptr stop n : BitVec w} (h : n ≤ stop - ptr) :
    (remaining mem ptr stop).take n.toNat = elementsAt mem ptr n.toNat :=
  take_elementsAt mem ptr h

theorem drop_remaining (mem : BitVec w → β) {ptr stop n : BitVec w} (h : n ≤ stop - ptr) :
    (remaining mem ptr stop).drop n.toNat = remaining mem (ptr + n) stop := by
  have hleft : (stop - (ptr + n)).toNat = (stop - ptr).toNat - n.toNat := by
    rw [← BitVec.toNat_sub_of_le h, sub_add_eq_sub_sub]
  rw [remaining, drop_elementsAt, remaining, hleft, BitVec.ofNat_toNat, BitVec.setWidth_eq]

/-! ## Requests -/

section Requests

variable {start stop ptr n : BitVec w}

theorem toNat_add_of_fits (hptr : ptr ≤ stop) (h : n ≤ stop - ptr) :
    (ptr + n).toNat = ptr.toNat + n.toNat := by
  have hsub := BitVec.toNat_sub_of_le hptr
  have hstop := stop.isLt
  rw [BitVec.le_def] at hptr h
  rw [BitVec.toNat_add, Nat.mod_eq_of_lt (by omega)]

theorem le_add_of_fits (hptr : ptr ≤ stop) (h : n ≤ stop - ptr) : ptr ≤ ptr + n := by
  rw [BitVec.le_def, toNat_add_of_fits hptr h]
  omega

theorem add_le_of_fits (hptr : ptr ≤ stop) (h : n ≤ stop - ptr) : ptr + n ≤ stop := by
  have hsub := BitVec.toNat_sub_of_le hptr
  have hadd := toNat_add_of_fits hptr h
  rw [BitVec.le_def] at hptr h ⊢
  omega

/-- The comparison lets through what fits and what wraps around. -/
theorem granted_iff (hptr : ptr ≤ stop) :
    ptr + n ≤ stop ↔ n ≤ stop - ptr ∨ 2 ^ w ≤ ptr.toNat + n.toNat := by
  have hsub := BitVec.toNat_sub_of_le hptr
  have hn := n.isLt
  by_cases hwrap : 2 ^ w ≤ ptr.toNat + n.toNat
  · have hptr' := ptr.isLt
    have hadd : (ptr + n).toNat = ptr.toNat + n.toNat - 2 ^ w := by
      rw [BitVec.toNat_add, Nat.mod_eq_sub_mod hwrap, Nat.mod_eq_of_lt (by omega)]
    rw [BitVec.le_def] at hptr ⊢
    exact iff_of_true (by omega) (.inr hwrap)
  · have hadd : (ptr + n).toNat = ptr.toNat + n.toNat := by
      rw [BitVec.toNat_add, Nat.mod_eq_of_lt (by omega)]
    simp only [BitVec.le_def] at hptr ⊢
    omega

theorem lt_add_of_refused (hptr : ptr ≤ stop) (hn : ¬n ≤ stop - ptr)
    (hwrap : ptr.toNat + n.toNat < 2 ^ w) : stop < ptr + n := by
  rw [← BitVec.not_le, granted_iff hptr]
  exact not_or.mpr ⟨hn, not_le.mpr hwrap⟩

/-- Each element of a request that fits is in the buffer. -/
theorem address_inside (hstart : start ≤ ptr) (hptr : ptr ≤ stop) (h : n ≤ stop - ptr)
    {i : Nat} (hi : i < n.toNat) :
    start ≤ ptr + BitVec.ofNat w i ∧ ptr + BitVec.ofNat w i < stop := by
  have hsub := BitVec.toNat_sub_of_le hptr
  have hstop := stop.isLt
  have hn := n.isLt
  simp only [BitVec.le_def, BitVec.lt_def] at hstart hptr h ⊢
  have haddr : (ptr + BitVec.ofNat w i).toNat = ptr.toNat + i := by
    rw [BitVec.toNat_add, BitVec.toNat_ofNat, Nat.mod_eq_of_lt (show i < 2 ^ w by omega),
      Nat.mod_eq_of_lt (by omega)]
  omega

end Requests

/-! ## Cursors -/

/-- A request for `size` elements at `ptr`. -/
structure Request (w : Nat) where
  ptr : BitVec w
  size : BitVec w
  deriving DecidableEq

/-- A pointer, the requests that have been granted, and what is left behind. -/
structure Cursor (w : Nat) (σ : Type) where
  ptr : BitVec w
  granted : List (Request w) := []
  out : σ

namespace Cursor

variable {start stop n : BitVec w} {c : Cursor w σ}

def advance (c : Cursor w σ) (n : BitVec w) : Cursor w σ :=
  { c with ptr := c.ptr + n, granted := c.granted ++ [⟨c.ptr, n⟩] }

/-- Where the pointer has been, in order. -/
def positions (c : Cursor w σ) : List (BitVec w) := c.granted.map Request.ptr ++ [c.ptr]

@[simp] theorem positions_advance : (c.advance n).positions = c.positions ++ [c.ptr + n] := by
  simp [positions, advance]

theorem ptr_mem_positions : c.ptr ∈ c.positions := by
  simp [positions]

/-- Everything so far has happened inside the buffer. -/
structure Inside (start stop : BitVec w) (c : Cursor w σ) : Prop where
  address : ∀ a ∈ c.granted, ∀ i < a.size.toNat,
    start ≤ a.ptr + BitVec.ofNat w i ∧ a.ptr + BitVec.ofNat w i < stop
  fits : ∀ a ∈ c.granted, a.size ≤ stop - a.ptr
  position : ∀ p ∈ c.positions, start ≤ p ∧ p ≤ stop
  ordered : c.positions.Pairwise (· ≤ ·)

theorem inside_start (h : start ≤ stop) (out : σ) :
    Inside start stop { ptr := start, out } where
  address := by simp
  fits := by simp
  position := by simpa [positions] using h
  ordered := by simp [positions]

theorem Inside.start_le (h : c.Inside start stop) : start ≤ c.ptr :=
  (h.position c.ptr ptr_mem_positions).1

theorem Inside.le_stop (h : c.Inside start stop) : c.ptr ≤ stop :=
  (h.position c.ptr ptr_mem_positions).2

theorem Inside.le_ptr (h : c.Inside start stop) {p : BitVec w} (hp : p ∈ c.positions) :
    p ≤ c.ptr := by
  rcases List.mem_append.mp hp with hp | hp
  · exact (List.pairwise_append.mp h.ordered).2.2 p hp c.ptr (List.mem_singleton_self _)
  · exact BitVec.le_of_eq (List.mem_singleton.mp hp)

theorem Inside.advance (h : c.Inside start stop) (hn : n ≤ stop - c.ptr) :
    (c.advance n).Inside start stop where
  address a ha := by
    rcases List.mem_append.mp ha with ha | ha
    · exact h.address a ha
    · obtain rfl := List.mem_singleton.mp ha
      exact fun i hi => address_inside h.start_le h.le_stop hn hi
  fits a ha := by
    rcases List.mem_append.mp ha with ha | ha
    · exact h.fits a ha
    · obtain rfl := List.mem_singleton.mp ha
      exact hn
  position p hp := by
    rw [positions_advance] at hp
    rcases List.mem_append.mp hp with hp | hp
    · exact h.position p hp
    · obtain rfl := List.mem_singleton.mp hp
      exact ⟨BitVec.le_trans h.start_le (le_add_of_fits h.le_stop hn),
        add_le_of_fits h.le_stop hn⟩
  ordered := by
    rw [positions_advance]
    refine List.pairwise_append.mpr ⟨h.ordered, List.pairwise_singleton .., ?_⟩
    intro p hp q hq
    obtain rfl := List.mem_singleton.mp hq
    exact BitVec.le_trans (h.le_ptr hp) (le_add_of_fits h.le_stop hn)

end Cursor

/-! ## Running through a pointer -/

namespace Reader

variable {mem : BitVec w → β} {start stop : BitVec w}

def exec (mem : BitVec w → β) (stop : BitVec w) :
    Reader w β σ α → Cursor w σ → Option α × Cursor w σ
  | .done a, c => (some a, c)
  | .take n next, c =>
      if stop < c.ptr + n then (none, c)
      else (next (elementsAt mem c.ptr n.toNat)).exec mem stop (c.advance n)
  | .leave f next, c => next.exec mem stop { c with out := f c.out }

/-- The first request that does not fit, if there is one, does not wrap
around. -/
def NoWrap (r : Reader w β σ α) (buf : List β) (pos : Nat) : Prop :=
  ∀ first size, r.shortfall buf pos = some (first, size) → first + size < 2 ^ w

/-! ### One request -/

section Take

variable {n : BitVec w} {next : List β → Reader w β σ α} {c : Cursor w σ}

theorem exec_take_of_fits (hptr : c.ptr ≤ stop) (hn : n ≤ stop - c.ptr) :
    (take n next).exec mem stop c
      = (next (elementsAt mem c.ptr n.toNat)).exec mem stop (c.advance n) := by
  rw [exec, if_neg (BitVec.not_lt.mpr (add_le_of_fits hptr hn))]

theorem shortfall_take_of_fits (hptr : c.ptr ≤ stop) (hn : n ≤ stop - c.ptr) :
    (take n next : Reader w β σ α).shortfall (remaining mem c.ptr stop) c.ptr.toNat
      = (next (elementsAt mem c.ptr n.toNat)).shortfall
          (remaining mem (c.advance n).ptr stop) (c.advance n).ptr.toNat := by
  have hlen : ¬(remaining mem c.ptr stop).length < n.toNat := fun h =>
    (length_remaining_lt mem).mp h hn
  rw [shortfall, if_neg hlen, take_remaining mem hn, drop_remaining mem hn,
    ← toNat_add_of_fits hptr hn]
  rfl

theorem parse_take_of_fits (hn : n ≤ stop - c.ptr) (out : σ) :
    (take n next : Reader w β σ α).parse (remaining mem c.ptr stop) out
      = (next (elementsAt mem c.ptr n.toNat)).parse
          (remaining mem (c.advance n).ptr stop) out := by
  have hlen : ¬(remaining mem c.ptr stop).length < n.toNat := fun h =>
    (length_remaining_lt mem).mp h hn
  rw [parse, if_neg hlen, take_remaining mem hn, drop_remaining mem hn]
  rfl

theorem shortfall_take_of_not_fits (hn : ¬n ≤ stop - c.ptr) :
    (take n next : Reader w β σ α).shortfall (remaining mem c.ptr stop) c.ptr.toNat
      = some (c.ptr.toNat, n.toNat) := by
  rw [shortfall, if_pos ((length_remaining_lt mem).mpr hn)]

theorem parse_take_of_not_fits (hn : ¬n ≤ stop - c.ptr) (out : σ) :
    (take n next : Reader w β σ α).parse (remaining mem c.ptr stop) out = (none, out) := by
  rw [parse, if_pos ((length_remaining_lt mem).mpr hn)]

/-- A request that neither fits nor wraps around is refused. -/
theorem exec_take_refused (hptr : c.ptr ≤ stop) (hn : ¬n ≤ stop - c.ptr)
    (hwrap : c.ptr.toNat + n.toNat < 2 ^ w) :
    (take n next).exec mem stop c = (none, c) := by
  rw [exec, if_pos (lt_add_of_refused hptr hn hwrap)]

theorem wraps_of_not_noWrap (hn : ¬n ≤ stop - c.ptr)
    (h : ¬(take n next : Reader w β σ α).NoWrap (remaining mem c.ptr stop) c.ptr.toNat) :
    2 ^ w ≤ c.ptr.toNat + n.toNat := by
  rw [NoWrap, shortfall_take_of_not_fits hn] at h
  by_contra hlt
  refine h fun first size hs => ?_
  cases hs
  exact not_le.mp hlt

end Take

/-! ### Whole runs -/

theorem noWrap_take_of_fits {n : BitVec w} {next : List β → Reader w β σ α} {c : Cursor w σ}
    (hptr : c.ptr ≤ stop) (hn : n ≤ stop - c.ptr)
    (h : (take n next).NoWrap (remaining mem c.ptr stop) c.ptr.toNat) :
    (next (elementsAt mem c.ptr n.toNat)).NoWrap (remaining mem (c.advance n).ptr stop)
      (c.advance n).ptr.toNat := by
  rw [NoWrap, shortfall_take_of_fits hptr hn] at h
  exact h

theorem exec_inside {r : Reader w β σ α} {c : Cursor w σ} (hc : c.Inside start stop)
    (h : r.NoWrap (remaining mem c.ptr stop) c.ptr.toNat) :
    (r.exec mem stop c).2.Inside start stop := by
  induction r generalizing c with
  | done a => exact hc
  | take n next ih =>
      by_cases hn : n ≤ stop - c.ptr
      · rw [exec_take_of_fits hc.le_stop hn]
        exact ih _ (hc.advance hn) (noWrap_take_of_fits hc.le_stop hn h)
      · have hwrap := h _ _ (shortfall_take_of_not_fits hn)
        rw [exec_take_refused hc.le_stop hn hwrap]
        exact hc
  | leave f next ih => exact ih ⟨hc.address, hc.fits, hc.position, hc.ordered⟩ h

theorem granted_subset_exec (r : Reader w β σ α) (c : Cursor w σ) :
    c.granted ⊆ (r.exec mem stop c).2.granted := by
  induction r generalizing c with
  | done a => exact List.Subset.refl _
  | take n next ih =>
      rw [exec]
      split
      · exact List.Subset.refl _
      · exact List.Subset.trans (List.subset_append_left ..) (ih _ (c.advance n))
  | leave f next ih => exact ih { c with out := f c.out }

/-- A request that does not fit and wraps around is granted. -/
theorem exists_overrun {r : Reader w β σ α} {c : Cursor w σ} (hptr : c.ptr ≤ stop)
    (h : ¬r.NoWrap (remaining mem c.ptr stop) c.ptr.toNat) :
    ∃ a ∈ (r.exec mem stop c).2.granted, ¬a.size ≤ stop - a.ptr := by
  induction r generalizing c with
  | done a => exact absurd (fun first size hs => nomatch hs) h
  | take n next ih =>
      by_cases hn : n ≤ stop - c.ptr
      · rw [NoWrap, shortfall_take_of_fits hptr hn] at h
        rw [exec_take_of_fits hptr hn]
        exact ih _ (add_le_of_fits hptr hn) h
      · have hwrap := wraps_of_not_noWrap hn h
        have hallowed : ¬stop < c.ptr + n :=
          BitVec.not_lt.mpr ((granted_iff hptr).mpr (.inr hwrap))
        rw [exec, if_neg hallowed]
        have hmem : ⟨c.ptr, n⟩ ∈ (c.advance n).granted :=
          List.mem_append_right _ (List.mem_singleton_self _)
        exact ⟨⟨c.ptr, n⟩, granted_subset_exec _ _ hmem, hn⟩
  | leave f next ih => exact ih (c := { c with out := f c.out }) hptr h

theorem inside_iff (mem : BitVec w → β) (r : Reader w β σ α) {c : Cursor w σ}
    (hc : c.Inside start stop) :
    (r.exec mem stop c).2.Inside start stop
      ↔ r.NoWrap (remaining mem c.ptr stop) c.ptr.toNat := by
  refine ⟨fun h => ?_, exec_inside hc⟩
  by_contra hwrap
  obtain ⟨a, ha, hbeyond⟩ := exists_overrun hc.le_stop hwrap
  exact hbeyond (h.fits a ha)

theorem exec_eq_parse {r : Reader w β σ α} {c : Cursor w σ} (hptr : c.ptr ≤ stop)
    (h : r.NoWrap (remaining mem c.ptr stop) c.ptr.toNat) :
    (r.exec mem stop c).1 = (r.parse (remaining mem c.ptr stop) c.out).1.map Prod.fst
      ∧ (r.exec mem stop c).2.out = (r.parse (remaining mem c.ptr stop) c.out).2 := by
  induction r generalizing c with
  | done a => exact ⟨rfl, rfl⟩
  | take n next ih =>
      by_cases hn : n ≤ stop - c.ptr
      · rw [exec_take_of_fits hptr hn, parse_take_of_fits hn]
        exact ih _ (add_le_of_fits hptr hn) (noWrap_take_of_fits hptr hn h)
      · have hwrap := h _ _ (shortfall_take_of_not_fits hn)
        rw [exec_take_refused hptr hn hwrap, parse_take_of_not_fits hn]
        exact ⟨rfl, rfl⟩
  | leave f next ih => exact ih hptr h

/-! ### Copies that throw -/

/-- A run in which what is granted is copied into a container of at most `limit`
elements; `none` if one of the copies throws. -/
def call (mem : BitVec w → β) (stop : BitVec w) (limit : Nat) :
    Reader w β σ α → Cursor w σ → Option (Option α × Cursor w σ)
  | .done a, c => some (some a, c)
  | .take n next, c =>
      if stop < c.ptr + n then some (none, c)
      else if limit < n.toNat then none
      else (next (elementsAt mem c.ptr n.toNat)).call mem stop limit (c.advance n)
  | .leave f next, c => next.call mem stop limit { c with out := f c.out }

section Call

variable {limit : Nat} {n : BitVec w} {next : List β → Reader w β σ α} {c : Cursor w σ}

theorem call_take_of_fits (hlimit : stop.toNat ≤ limit) (hptr : c.ptr ≤ stop)
    (hn : n ≤ stop - c.ptr) :
    (take n next).call mem stop limit c
      = (next (elementsAt mem c.ptr n.toNat)).call mem stop limit (c.advance n) := by
  have hsub := BitVec.toNat_sub_of_le hptr
  have hsize : ¬limit < n.toNat := by
    rw [BitVec.le_def] at hn
    omega
  rw [call, if_neg (BitVec.not_lt.mpr (add_le_of_fits hptr hn)), if_neg hsize]

/-- Without wrap-around nothing throws, -/
theorem call_eq_exec {r : Reader w β σ α} (hlimit : stop.toNat ≤ limit) (hptr : c.ptr ≤ stop)
    (h : r.NoWrap (remaining mem c.ptr stop) c.ptr.toNat) :
    r.call mem stop limit c = some (r.exec mem stop c) := by
  induction r generalizing c with
  | done a => rfl
  | take n next ih =>
      by_cases hn : n ≤ stop - c.ptr
      · rw [exec_take_of_fits hptr hn, call_take_of_fits hlimit hptr hn]
        exact ih _ (add_le_of_fits hptr hn) (noWrap_take_of_fits hptr hn h)
      · have hwrap := h _ _ (shortfall_take_of_not_fits hn)
        rw [exec_take_refused hptr hn hwrap, call, if_pos (lt_add_of_refused hptr hn hwrap)]
  | leave f next ih => exact ih hptr h

/-- and a request that wraps around is too long for any container. -/
theorem call_eq_none {r : Reader w β σ α} (hlimit : stop.toNat ≤ limit)
    (hlong : stop.toNat + limit < 2 ^ w) (hptr : c.ptr ≤ stop)
    (h : ¬r.NoWrap (remaining mem c.ptr stop) c.ptr.toNat) :
    r.call mem stop limit c = none := by
  induction r generalizing c with
  | done a => exact absurd (fun first size hs => nomatch hs) h
  | take n next ih =>
      by_cases hn : n ≤ stop - c.ptr
      · rw [NoWrap, shortfall_take_of_fits hptr hn] at h
        rw [call_take_of_fits hlimit hptr hn]
        exact ih _ (add_le_of_fits hptr hn) h
      · have hwrap := wraps_of_not_noWrap hn h
        have hgranted : ¬stop < c.ptr + n :=
          BitVec.not_lt.mpr ((granted_iff hptr).mpr (.inr hwrap))
        have hsize : limit < n.toNat := by
          rw [BitVec.le_def] at hptr
          omega
        rw [call, if_neg hgranted, if_pos hsize]
  | leave f next ih => exact ih (c := { c with out := f c.out }) hptr h

end Call

end Reader

end BoundedReads
