import SubclassIndex.Text.Basic

/-!
# UTF-8

One machine reads UTF-8 a byte at a time and hands out a list of pieces: a code point for each
sequence that is complete, and `none` for each longest run of bytes that begins a sequence and
cannot be completed. The strict decoder asks that every piece be a code point, the lossy one writes
U+FFFD for the others. The repertoire decides whether encoded surrogates count as sequences.
-/

namespace SubclassIndex.Utf8

/-- Which code points a decoder admits. -/
inductive Repertoire
  /-- Unicode scalar values, as UTF-8 has it. -/
  | scalars
  /-- Every code point, a surrogate written in three bytes as if it were a scalar value. -/
  | codePoints
  deriving DecidableEq

/-- A sequence of which some bytes have been read: their bits, how many bytes are owed, and the
range in which the next one has to lie. -/
structure Partial where
  bits : Nat
  owed : Nat
  low : Nat
  high : Nat

/-- What a first byte means: a whole code point, the start of a longer sequence, or nothing. -/
inductive Start
  | whole (point : CodePoint)
  | opens (sequence : Partial)
  | invalid

/-- The meaning of a first byte. The bounds on the second byte exclude sequences that are longer
than needed and numbers beyond the last code point. -/
def start (r : Repertoire) (byte : UInt8) : Start :=
  let b := byte.toNat
  if h : b < 0x80 then .whole ⟨b, by omega⟩
  else if b < 0xC2 then .invalid
  else if b < 0xE0 then .opens ⟨b - 0xC0, 1, 0x80, 0xBF⟩
  else if b = 0xE0 then .opens ⟨0, 2, 0xA0, 0xBF⟩
  else if b = 0xED then
    .opens ⟨0xD, 2, 0x80, match r with | .scalars => 0x9F | .codePoints => 0xBF⟩
  else if b < 0xF0 then .opens ⟨b - 0xE0, 2, 0x80, 0xBF⟩
  else if b = 0xF0 then .opens ⟨0, 3, 0x90, 0xBF⟩
  else if b < 0xF4 then .opens ⟨b - 0xF0, 3, 0x80, 0xBF⟩
  else if b = 0xF4 then .opens ⟨4, 3, 0x80, 0x8F⟩
  else .invalid

/-- The state of the reader: the sequence in progress, and the pieces so far backwards. -/
structure State where
  sequence : Option Partial := none
  pieces : List (Option CodePoint) := []

/-- One byte between sequences. -/
def State.begin (r : Repertoire) (pieces : List (Option CodePoint)) (byte : UInt8) : State :=
  match start r byte with
  | .whole c => ⟨none, some c :: pieces⟩
  | .opens p => ⟨some p, pieces⟩
  | .invalid => ⟨none, none :: pieces⟩

/-- One byte. A byte that cannot continue the sequence in progress ends it and starts anew. -/
def State.feed (r : Repertoire) (s : State) (byte : UInt8) : State :=
  match s.sequence with
  | none => .begin r s.pieces byte
  | some p =>
    if p.low ≤ byte.toNat ∧ byte.toNat ≤ p.high then
      let bits := p.bits * 64 + (byte.toNat - 0x80)
      if p.owed ≤ 1 then ⟨none, CodePoint.ofNat? bits :: s.pieces⟩
      else ⟨some ⟨bits, p.owed - 1, 0x80, 0xBF⟩, s.pieces⟩
    else .begin r (none :: s.pieces) byte

/-- The pieces when the bytes end here. -/
def State.finish (s : State) : List (Option CodePoint) :=
  match s.sequence with
  | none => s.pieces.reverse
  | some _ => (none :: s.pieces).reverse

/-- The code points and the undecodable runs of some bytes, in order. -/
def pieces (r : Repertoire) (bytes : Bytes) : List (Option CodePoint) :=
  (bytes.foldl (State.feed r) {}).finish

/-- The text of bytes that are wholly decodable. -/
def decode? (r : Repertoire) (bytes : Bytes) : Option Text := (pieces r bytes).mapM id

/-- The text of any bytes, U+FFFD standing for each undecodable run. -/
def decodeLossy (bytes : Bytes) : Text :=
  (pieces .scalars bytes).map fun c => c.getD .replacement

/-- The bytes of one code point; a surrogate is written like any other. -/
def bytesOf (c : CodePoint) : Bytes :=
  let n := c.val
  let tail (shift : Nat) : UInt8 := (0x80 + n / shift % 64).toUInt8
  if n < 0x80 then [n.toUInt8]
  else if n < 0x800 then [(0xC0 + n / 64).toUInt8, tail 1]
  else if n < 0x10000 then [(0xE0 + n / 4096).toUInt8, tail 64, tail 1]
  else [(0xF0 + n / 262144).toUInt8, tail 4096, tail 64, tail 1]

/-- The bytes of a text; a surrogate cannot be written. -/
def encode? (t : Text) : Option Bytes :=
  if t.any CodePoint.isSurrogate then none else some (t.flatMap bytesOf)

end SubclassIndex.Utf8
