import Mathlib.Data.Nat.Digits.Lemmas
import VsrKv.Words

/-!
# Decimal numbers as text

What `std::to_string` writes and what `strtol` reads in base ten, in
ASCII. The writer puts no leading zeros. The reader skips white space,
takes a sign, and then as many digits as there are; it looks at nothing
behind them and fails when there are none.

A number written is read back (`readInt_writeInt`). Read a number short
of its last digits, and it is another one, if it is one at all
(`readInt_ne_of_cut`).
-/

namespace Decimal

open Words (isSpace)

/-! ## Writing -/

def digit (d : Nat) : UInt8 := UInt8.ofNat (48 + d)

def writeNat (n : Nat) : List UInt8 :=
  if n = 0 then [48] else ((Nat.digits 10 n).map digit).reverse

def minus : UInt8 := 45

def plus : UInt8 := 43

def writeInt : Int → List UInt8
  | .ofNat n => writeNat n
  | .negSucc n => minus :: writeNat (n + 1)

/-! ## Reading -/

def isDigit (b : UInt8) : Bool := 48 ≤ b && b ≤ 57

def value (ds : List UInt8) : Nat := ds.foldl (fun n b => n * 10 + (b.toNat - 48)) 0

def readNat (bs : List UInt8) : Option Nat :=
  let ds := bs.takeWhile isDigit
  if ds.isEmpty then none else some (value ds)

def readInt (bs : List UInt8) : Option Int :=
  match bs.dropWhile isSpace with
  | [] => none
  | b :: rest =>
      if b = minus then (readNat rest).map Int.negOfNat
      else if b = plus then (readNat rest).map Int.ofNat
      else (readNat (b :: rest)).map Int.ofNat

/-! ## Values -/

theorem foldl_eq_value (n : Nat) (ds : List UInt8) :
    ds.foldl (fun n b => n * 10 + (b.toNat - 48)) n = n * 10 ^ ds.length + value ds := by
  induction ds generalizing n with
  | nil => simp [value]
  | cons b ds ih =>
      have hcons : value (b :: ds) = (b.toNat - 48) * 10 ^ ds.length + value ds := by
        rw [value, List.foldl_cons, ih]
        simp
      rw [List.foldl_cons, ih, hcons, List.length_cons]
      ring

theorem value_append (p q : List UInt8) : value (p ++ q) = value p * 10 ^ q.length + value q := by
  rw [value, List.foldl_append, foldl_eq_value]
  rfl

theorem toNat_digit {d : Nat} (h : d < 10) : (digit d).toNat = 48 + d := by
  rw [digit, UInt8.toNat_ofNat']
  omega

theorem isDigit_digit {d : Nat} (h : d < 10) : isDigit (digit d) = true := by
  have hd := toNat_digit h
  simp only [isDigit, Bool.and_eq_true, decide_eq_true_eq, UInt8.le_iff_toNat_le, hd]
  exact ⟨by simp, by simp; omega⟩

theorem isDigit_writeNat (n : Nat) : ∀ b ∈ writeNat n, isDigit b = true := by
  intro b hb
  rw [writeNat] at hb
  split at hb
  · rw [List.mem_singleton.mp hb]
    rfl
  · obtain ⟨d, hd, rfl⟩ := List.mem_map.mp (List.mem_reverse.mp hb)
    exact isDigit_digit (Nat.digits_lt_base (by norm_num) hd)

theorem value_writeNat (n : Nat) : value (writeNat n) = n := by
  rw [writeNat]
  split
  · rename_i h
    rw [h]
    rfl
  · have hvalue : ∀ ds : List Nat, (∀ d ∈ ds, d < 10) →
        value ((ds.map digit).reverse) = Nat.ofDigits 10 ds := by
      intro ds hds
      induction ds with
      | nil => rfl
      | cons d ds ih =>
          obtain ⟨hd, hds⟩ := List.forall_mem_cons.mp hds
          have hlast : value [digit d] = d := by
            show 0 * 10 + ((digit d).toNat - 48) = d
            rw [toNat_digit hd]
            omega
          rw [List.map_cons, List.reverse_cons, value_append, ih hds, hlast, Nat.ofDigits_cons]
          simp
          ring
    rw [hvalue _ (fun d hd => Nat.digits_lt_base (by norm_num) hd), Nat.ofDigits_digits]

theorem writeNat_ne_nil (n : Nat) : writeNat n ≠ [] := by
  intro h
  rw [writeNat] at h
  split at h
  · cases h
  · rename_i hn
    exact Nat.digits_ne_nil_iff_ne_zero.mpr hn (by simpa using h)

/-! ## Round trips -/

theorem readNat_of_digits {ds : List UInt8} (h : ∀ b ∈ ds, isDigit b = true) :
    readNat ds = if ds.isEmpty then none else some (value ds) := by
  rw [readNat, List.takeWhile_eq_self_iff.mpr h]

theorem readNat_writeNat (n : Nat) : readNat (writeNat n) = some n := by
  have hne : (writeNat n).isEmpty = false := by
    simpa using writeNat_ne_nil n
  rw [readNat_of_digits (isDigit_writeNat n), value_writeNat, hne]
  rfl

/-- Leaving off last digits changes the value: it could stay the same only
for zero, and zero has a single digit. -/
theorem readNat_ne_of_cut {p q : List UInt8} {n : Nat} (h : p ++ q = writeNat n)
    (hq : q ≠ []) : readNat p ≠ some n := by
  have hdigits : ∀ b ∈ p, isDigit b = true := by
    intro b hb
    exact isDigit_writeNat n b (h ▸ List.mem_append_left q hb)
  rw [readNat_of_digits hdigits]
  cases p with
  | nil => simp
  | cons b p =>
      intro hvalue
      have hn : value (b :: p) = n := Option.some.inj hvalue
      have hsum := value_writeNat n
      rw [← h, value_append, hn] at hsum
      have hpow : 10 ≤ 10 ^ q.length :=
        Nat.le_self_pow (Nat.ne_of_gt (List.length_pos_iff.mpr hq)) 10
      have hmul := Nat.mul_le_mul_left n hpow
      have hzero : n = 0 := by omega
      have hlen := congrArg List.length h
      have hpos := List.length_pos_iff.mpr hq
      rw [hzero, List.length_append] at hlen
      simp [writeNat] at hlen
      omega

theorem not_space_of_digit {b : UInt8} (h : isDigit b = true) :
    isSpace b = false ∧ b ≠ minus ∧ b ≠ plus := by
  simp only [isDigit, Bool.and_eq_true, decide_eq_true_eq] at h
  refine ⟨?_, ?_, ?_⟩
  · simp only [isSpace, Bool.or_eq_false_iff, beq_eq_false_iff_ne, Bool.and_eq_false_iff,
      decide_eq_false_iff_not]
    refine ⟨?_, Or.inr ?_⟩
    · rintro rfl
      exact absurd h.1 (by decide)
    · intro hle
      exact absurd (UInt8.le_trans h.1 hle) (by decide)
  · rintro rfl
    exact absurd h.1 (by decide)
  · rintro rfl
    exact absurd h.1 (by decide)

theorem readInt_of_digits {ds : List UInt8} (h : ∀ b ∈ ds, isDigit b = true) :
    readInt ds = (readNat ds).map Int.ofNat := by
  cases ds with
  | nil => rfl
  | cons b ds =>
      obtain ⟨hspace, hminus, hplus⟩ := not_space_of_digit (h b (List.mem_cons_self ..))
      rw [readInt, List.dropWhile_cons_of_neg (by simp [hspace])]
      simp only [if_neg hminus, if_neg hplus]

theorem readInt_minus (bs : List UInt8) :
    readInt (minus :: bs) = (readNat bs).map Int.negOfNat := by
  rw [readInt, List.dropWhile_cons_of_neg (by decide)]
  simp only [if_true]

theorem readInt_writeInt (k : Int) : readInt (writeInt k) = some k := by
  cases k with
  | ofNat n =>
      rw [writeInt, readInt_of_digits (isDigit_writeNat n), readNat_writeNat]
      rfl
  | negSucc n =>
      rw [writeInt, readInt_minus, readNat_writeNat]
      rfl

theorem readInt_ne_of_cut {p q : List UInt8} {k : Int} (h : p ++ q = writeInt k)
    (hq : q ≠ []) : readInt p ≠ some k := by
  intro hread
  cases k with
  | ofNat n =>
      have hdigits : ∀ b ∈ p, isDigit b = true := by
        intro b hb
        exact isDigit_writeNat n b ((show p ++ q = writeNat n from h) ▸ List.mem_append_left q hb)
      rw [readInt_of_digits hdigits] at hread
      obtain ⟨m, hm, heq⟩ := Option.map_eq_some_iff.mp hread
      obtain rfl : m = n := Int.ofNat.inj heq
      exact readNat_ne_of_cut h hq hm
  | negSucc n =>
      cases p with
      | nil => cases hread
      | cons b p =>
          obtain ⟨rfl, hrest⟩ : b = minus ∧ p ++ q = writeNat (n + 1) := by
            simpa [writeInt] using h
          rw [readInt_minus] at hread
          obtain ⟨m, hm, heq⟩ := Option.map_eq_some_iff.mp hread
          obtain rfl : m = n + 1 := by
            rw [Int.negOfNat_eq, Int.ofNat_eq_natCast] at heq
            omega
          exact readNat_ne_of_cut hrest hq hm

end Decimal
