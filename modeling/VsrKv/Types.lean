import Mathlib.Data.Finset.Card
import Mathlib.Tactic.Linarith

/-!
# The data model: messages, log entries, client table entries

The plain data of the replica, field by field as the headers declare
it (`utilities.hpp`, `vsr_message.hpp`, `replica_types.hpp`). Integer
fields are natural numbers; a place where the program narrows or wraps
one says so with `u8`/`u32`/`u64`, and `VsrHeader.InRange` collects the
bounds the field types impose on every value that has passed through
memory or the wire.

`std::map` is the standard library's extensional ordered map, so two
maps with the same bindings are the same map; `std::set<int>` is a
`Finset`.
-/

namespace VsrKv

/-! ## Machine integers and bytes -/

/-- Narrowing to one byte, as the assignment `header.replica = id_` does. -/
def u8 (n : Nat) : Nat := n % 2 ^ 8

/-- Arithmetic on `uint32_t`. -/
def u32 (n : Nat) : Nat := n % 2 ^ 32

/-- Arithmetic on `uint64_t`. -/
def u64 (n : Nat) : Nat := n % 2 ^ 64

theorem u8_eq {n : Nat} (h : n < 2 ^ 8) : u8 n = n := Nat.mod_eq_of_lt h

theorem u32_eq {n : Nat} (h : n < 2 ^ 32) : u32 n = n := Nat.mod_eq_of_lt h

theorem u64_eq {n : Nat} (h : n < 2 ^ 64) : u64 n = n := Nat.mod_eq_of_lt h

abbrev Bytes := List UInt8

/-- `std::map` with the key type's own order. -/
abbrev StdMap (α β : Type) [Ord α] := Std.ExtTreeMap α β compare

/-- `utilities::uint128_t`. -/
structure UInt128 where
  high : UInt64 := 0
  low : UInt64 := 0
deriving Repr, DecidableEq

namespace UInt128

/-- `operator<`: the high halves decide, then the low ones. -/
instance : Ord UInt128 where
  compare := compareLex (compareOn UInt128.high) (compareOn UInt128.low)

instance : Std.TransOrd UInt128 :=
  inferInstanceAs (Std.TransCmp (compareLex (compareOn high) (compareOn low)))

theorem eq_of_compare {a b : UInt128} (h : compare a b = .eq) : a = b := by
  obtain ⟨hhi, hlo⟩ := compareLex_eq_eq.mp h
  have h1 : a.high = b.high := Std.LawfulEqOrd.eq_of_compare hhi
  have h2 : a.low = b.low := Std.LawfulEqOrd.eq_of_compare hlo
  cases a; cases b; simp_all

instance : Std.LawfulEqOrd UInt128 where
  eq_of_compare := eq_of_compare

end UInt128

/-! ## Messages -/

/-- `enum class command : byte`. A byte read off the wire need not name
an enumerator; `other k` is the byte `13 + k`. -/
inductive Command where
  | reserved
  | ping
  | pong
  | request
  | prepare
  | prepareOk
  | reply
  | commit
  | startViewChange
  | doViewChange
  | startView
  | recovery
  | recoveryResponse
  | other (k : Fin 243)
deriving Repr, DecidableEq

/-- `enum class operation : byte`; `other k` is the byte `4 + k`. -/
inductive Operation where
  | reserved
  | set
  | update
  | get
  | other (k : Fin 252)
deriving Repr, DecidableEq

/-- `vsr_header`, zero-initialised like `vsr_message() : header{}`. -/
structure VsrHeader where
  checksum : UInt128 := {}
  checksumBody : UInt128 := {}
  parent : UInt128 := {}
  client : UInt128 := {}
  context : UInt128 := {}
  size : Nat := 0
  request : Nat := 0
  cluster : Nat := 0
  epoch : Nat := 0
  view : Nat := 0
  op : Nat := 0
  commit : Nat := 0
  offset : Nat := 0
  replica : Nat := 0
  command : Command := .reserved
  operation : Operation := .reserved
  version : Nat := 0
deriving Repr, DecidableEq

/-- The bounds the field types of `vsr_header` impose. -/
structure VsrHeader.InRange (h : VsrHeader) : Prop where
  size : h.size < 2 ^ 32
  request : h.request < 2 ^ 32
  cluster : h.cluster < 2 ^ 32
  epoch : h.epoch < 2 ^ 32
  view : h.view < 2 ^ 32
  op : h.op < 2 ^ 64
  commit : h.commit < 2 ^ 64
  offset : h.offset < 2 ^ 64
  replica : h.replica < 2 ^ 8
  version : h.version < 2 ^ 8

structure VsrMessage where
  header : VsrHeader := {}
  payload : Bytes := []
deriving Repr, DecidableEq

/-- What a message may travel on: the link to a peer, a client's
connection, or the `nullptr` of a message a replica hands to itself. -/
inductive Connection where
  | null
  | peer (id : Nat)
  | client (fd : Nat)
deriving Repr, DecidableEq

structure InboundMessage where
  connection : Connection
  message : VsrMessage
deriving Repr, DecidableEq

/-! ## Log and client table entries -/

structure LogEntry where
  view : Nat
  opType : Operation
  clientId : UInt128
  requestNum : Nat
  payload : Bytes
  prepareOkAcks : Finset Nat := ∅
deriving DecidableEq

abbrev Log := StdMap Nat LogEntry

namespace LogEntry

/-- The entry without its acknowledgements: what the wire carries, and
what replicas have to agree on. -/
def strip (e : LogEntry) : LogEntry := { e with prepareOkAcks := ∅ }

@[simp] theorem strip_strip (e : LogEntry) : e.strip.strip = e.strip := rfl

/-- The bounds the field types of `log_entry` impose; the payload is a
`std::vector`, whose length is a `size_t`. -/
structure InRange (e : LogEntry) : Prop where
  view : e.view < 2 ^ 32
  requestNum : e.requestNum < 2 ^ 32
  payload : e.payload.length < 2 ^ 64

end LogEntry

structure ClientTableEntry where
  requestNumber : Nat := 0
  executed : Bool := false
  result : Bytes := []
deriving Repr, DecidableEq

end VsrKv
