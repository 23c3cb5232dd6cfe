import Mathlib.Data.Nat.ModEq
import Mathlib.Tactic.Linarith

/-!
# Fixed-width little-endian integers

What copying an integer to and from memory does on a little-endian
machine: `encode k n` is the `k` bytes of `n`, least significant first,
and `decode` reads a byte string back. `read k` is the reader the
buffers are consumed with: it takes `k` bytes off the front, or fails
and takes nothing.

Nothing here knows about any particular format; a format is a sequence
of `encode`s on one side and of `read`s on the other, and `read_encode`
and `eq_of_read` are the one step of its round trip in each direction.
-/

namespace LittleEndian

def encode : Nat → Nat → List UInt8
  | 0, _ => []
  | k + 1, n => UInt8.ofNat n :: encode k (n / 256)

def decode : List UInt8 → Nat
  | [] => 0
  | b :: bs => b.toNat + 256 * decode bs

@[simp] theorem length_encode (k n : Nat) : (encode k n).length = k := by
  induction k generalizing n with
  | zero => rfl
  | succ k ih => simp [encode, ih]

theorem decode_encode {k n : Nat} (h : n < 256 ^ k) : decode (encode k n) = n := by
  induction k generalizing n with
  | zero =>
      have : n = 0 := by simpa using h
      simp [encode, decode, this]
  | succ k ih =>
      have hdiv : n / 256 < 256 ^ k := by
        rw [Nat.pow_succ] at h
        omega
      simp only [encode, decode, ih hdiv, UInt8.toNat_ofNat']
      omega

theorem decode_lt (bs : List UInt8) : decode bs < 256 ^ bs.length := by
  induction bs with
  | nil => simp [decode]
  | cons b bs ih =>
      have hb : b.toNat < 256 := b.toNat_lt
      rw [decode, List.length_cons, Nat.pow_succ]
      omega

/-- Every byte string is the encoding of the integer it is read as. -/
theorem encode_decode (bs : List UInt8) : encode bs.length (decode bs) = bs := by
  induction bs with
  | nil => rfl
  | cons b bs ih =>
      have hb : b.toNat < 256 := b.toNat_lt
      have hlow : UInt8.ofNat (b.toNat + 256 * decode bs) = b := by
        rw [← UInt8.toNat_inj, UInt8.toNat_ofNat']
        omega
      have hhigh : (b.toNat + 256 * decode bs) / 256 = decode bs := by omega
      rw [decode, List.length_cons, encode, hlow, hhigh, ih]

/-- Take `k` bytes off the front of the buffer and read them as an
integer. -/
def read (k : Nat) (buf : List UInt8) : Option (Nat × List UInt8) :=
  if buf.length < k then none else some (decode (buf.take k), buf.drop k)

theorem read_encode {k n : Nat} (h : n < 256 ^ k) (rest : List UInt8) :
    read k (encode k n ++ rest) = some (n, rest) := by
  have hlen : ¬(encode k n ++ rest).length < k := by simp
  rw [read, if_neg hlen]
  simp [decode_encode h]

/-- What is read is what had been written there. -/
theorem eq_of_read {k n : Nat} {buf rest : List UInt8} (h : read k buf = some (n, rest)) :
    buf = encode k n ++ rest ∧ n < 256 ^ k := by
  unfold read at h
  split at h
  · cases h
  · rename_i hlen
    cases h
    have htake : (buf.take k).length = k := List.length_take_of_le (not_lt.mp hlen)
    have hround := encode_decode (buf.take k)
    have hlt := decode_lt (buf.take k)
    rw [htake] at hround hlt
    exact ⟨by rw [hround, List.take_append_drop], hlt⟩

end LittleEndian
