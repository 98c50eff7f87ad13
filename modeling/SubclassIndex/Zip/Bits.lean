import SubclassIndex.Text.Basic

/-!
# Reading bits

A compressed stream is read bit by bit, the least significant bit of each byte first.
-/

namespace SubclassIndex.Zip

/-- The bits of a byte, the least significant first. -/
def bitsOf (b : UInt8) : List Bool := (List.range 8).map b.toNat.testBit

/-- Bits that are still to be read: the rest of a byte, and the bytes after it. -/
structure Bits where
  pending : List Bool
  bytes : Bytes

/-- Why reading stopped early: the bits ran out, or they say something impossible. -/
inductive Trouble
  | starved
  | invalid
  deriving DecidableEq

namespace Bits

/-- The bits of some bytes. -/
def ofBytes (bytes : Bytes) : Bits := ⟨[], bytes⟩

/-- The next bit. -/
def next (s : Bits) : Except Trouble (Bool × Bits) :=
  match s.pending, s.bytes with
  | b :: rest, _ => .ok (b, { s with pending := rest })
  | [], byte :: bytes =>
    match bitsOf byte with
    | b :: rest => .ok (b, ⟨rest, bytes⟩)
    | [] => .error .starved
  | [], [] => .error .starved

/-- The number in the next bits, the least significant one first. -/
def number (s : Bits) : (width : Nat) → Except Trouble (Nat × Bits)
  | 0 => .ok (0, s)
  | width + 1 => do
    let (low, s) ← s.next
    let (high, s) ← s.number width
    .ok (low.toNat + 2 * high, s)

/-- The bits from the next whole byte on. -/
def align (s : Bits) : Bits := { s with pending := [] }

/-- A bound on the number of bits that are left. -/
def bound (s : Bits) : Nat := s.pending.length + 8 * s.bytes.length

end Bits

end SubclassIndex.Zip
