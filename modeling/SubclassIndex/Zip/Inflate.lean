import SubclassIndex.Zip.Library
import SubclassIndex.Zip.PrefixCode

/-!
# Inflating

The deflate format: blocks of stored bytes, or of literals and copies in a prefix code that is
fixed or comes with the block. What was read before the stream breaks off counts; what the stream
says after its last block does not.
-/

namespace SubclassIndex.Zip

/-- What a code word of a block means. -/
inductive Token
  | literal (byte : UInt8)
  | copy (length distance : Nat)
  | endOfBlock

/-- The two codes of a block. -/
structure BlockCodes where
  literals : PrefixCode
  distances : PrefixCode

/-- The shortest length and the number of further bits for the symbols from 257 on. -/
def lengthSymbols : List (Nat × Nat) :=
  [(3, 0), (4, 0), (5, 0), (6, 0), (7, 0), (8, 0), (9, 0), (10, 0), (11, 1), (13, 1), (15, 1),
    (17, 1), (19, 2), (23, 2), (27, 2), (31, 2), (35, 3), (43, 3), (51, 3), (59, 3), (67, 4),
    (83, 4), (99, 4), (115, 4), (131, 5), (163, 5), (195, 5), (227, 5), (258, 0)]

/-- The shortest distance and the number of further bits for the distance symbols. -/
def distanceSymbols : List (Nat × Nat) :=
  [(1, 0), (2, 0), (3, 0), (4, 0), (5, 1), (7, 1), (9, 2), (13, 2), (17, 3), (25, 3), (33, 4),
    (49, 4), (65, 5), (97, 5), (129, 6), (193, 6), (257, 7), (385, 7), (513, 8), (769, 8),
    (1025, 9), (1537, 9), (2049, 10), (3073, 10), (4097, 11), (6145, 11), (8193, 12), (12289, 12),
    (16385, 13), (24577, 13)]

/-- The codes of a block that brings none. -/
def fixedCodes : BlockCodes :=
  ⟨.ofLengths (List.replicate 144 8 ++ List.replicate 112 9 ++ List.replicate 24 7 ++
    List.replicate 8 8), .ofLengths (List.replicate 32 5)⟩

/-- A base and the number in the further bits of its symbol. -/
def extended (symbols : List (Nat × Nat)) (symbol : Nat) (s : Bits) :
    Except Trouble (Nat × Bits) :=
  match symbols[symbol]? with
  | some (base, width) => do
    let (more, s) ← s.number width
    .ok (base + more, s)
  | none => .error .invalid

/-- The symbol of a code; a word without one is impossible. -/
def symbol (c : PrefixCode) (s : Bits) : Except Trouble (Nat × Bits) := do
  match ← c.decode s with
  | (some n, s) => .ok (n, s)
  | (none, _) => .error .invalid

/-- The next token of a block. -/
def token (codes : BlockCodes) (s : Bits) : Except Trouble (Token × Bits) := do
  let (n, s) ← symbol codes.literals s
  if n < 256 then .ok (.literal n.toUInt8, s)
  else if n = 256 then .ok (.endOfBlock, s)
  else
    let (length, s) ← extended lengthSymbols (n - 257) s
    let (m, s) ← symbol codes.distances s
    let (distance, s) ← extended distanceSymbols m s
    .ok (.copy length distance, s)

/-- The output with bytes repeated from a distance back, one at a time. -/
def copyBack (distance : Nat) : (length : Nat) → Array UInt8 → Array UInt8
  | 0, out => out
  | length + 1, out => copyBack distance length (out.push (out.getD (out.size - distance) 0))

/-- The output after a part of a stream, and the bits after it or what went wrong. -/
abbrev Progress := Array UInt8 × Except Trouble Bits

/-- The tokens of a block up to its end. Every token takes a bit, which bounds their number. -/
def tokens (codes : BlockCodes) : (bound : Nat) → Bits → Array UInt8 → Progress
  | 0, _, out => (out, .error .starved)
  | bound + 1, s, out =>
    match token codes s with
    | .error e => (out, .error e)
    | .ok (.endOfBlock, s) => (out, .ok s)
    | .ok (.literal b, s) => tokens codes bound s (out.push b)
    | .ok (.copy length distance, s) =>
      if out.size < distance then (out, .error .invalid)
      else tokens codes bound s (copyBack distance length out)

/-- A block of stored bytes: their number, its complement, and the bytes. -/
def stored (s : Bits) (out : Array UInt8) : Progress :=
  let header := do
    let (length, s) ← s.align.number 16
    let (complement, s) ← s.number 16
    .ok (length, complement, s)
  match header with
  | .error e => (out, .error e)
  | .ok (length, complement, s) =>
    if length + complement ≠ 0xFFFF then (out, .error .invalid)
    else
      let bytes := s.bytes.take length
      let out := bytes.foldl Array.push out
      if bytes.length < length then (out, .error .starved)
      else (out, .ok (.ofBytes (s.bytes.drop length)))

/-- The order in which the word lengths of the code for word lengths are given. -/
def lengthOrder : List Nat := [16, 17, 18, 0, 8, 7, 9, 6, 10, 5, 11, 4, 12, 3, 13, 2, 14, 1, 15]

/-- The next numbers of three bits. -/
def smallNumbers (s : Bits) : Nat → Except Trouble (List Nat × Bits)
  | 0 => .ok ([], s)
  | count + 1 => do
    let (n, s) ← s.number 3
    let (ns, s) ← smallNumbers s count
    .ok (n :: ns, s)

/-- The word lengths of both codes, read in a code of their own in which a length can be repeated.
The lengths so far are held backwards. -/
def wordLengths (c : PrefixCode) (total : Nat) :
    (bound : Nat) → Bits → List Nat → Except Trouble (List Nat × Bits)
  | 0, _, _ => .error .starved
  | bound + 1, s, done =>
    if total ≤ done.length then .ok (done.reverse, s)
    else do
      let (word, s) ← c.decode s
      let n := word.getD 0
      if n < 16 then wordLengths c total bound s (n :: done)
      else
        let (value, base, width) :=
          if n = 16 then (done.head?, 3, 2) else if n = 17 then (some 0, 3, 3) else (some 0, 11, 7)
        let (more, s) ← s.number width
        match value with
        | none => .error .invalid
        | some v =>
          if total < done.length + base + more then .error .invalid
          else wordLengths c total bound s (List.replicate (base + more) v ++ done)

/-- The codes that come with a block. -/
def dynamicCodes (s : Bits) : Except Trouble (BlockCodes × Bits) := do
  let (n, s) ← s.number 5
  let (m, s) ← s.number 5
  let (k, s) ← s.number 4
  let literalCount := n + 257
  let distanceCount := m + 1
  if 286 < literalCount ∨ 30 < distanceCount then .error .invalid
  else
    let (given, s) ← smallNumbers s (k + 4)
    let ordered := (List.range 19).map fun i =>
      ((lengthOrder.zip given).find? fun e => e.1 = i).elim 0 Prod.snd
    let lengthCode := PrefixCode.ofLengths ordered
    if !lengthCode.isUsable false then .error .invalid
    else
      let (lengths, s) ←
        wordLengths lengthCode (literalCount + distanceCount) (literalCount + distanceCount + 1)
          s []
      let codes : BlockCodes :=
        ⟨.ofLengths (lengths.take literalCount), .ofLengths (lengths.drop literalCount)⟩
      if lengths[256]?.getD 0 = 0 then .error .invalid
      else if !codes.literals.isUsable true ∨ !codes.distances.isUsable true then .error .invalid
      else .ok (codes, s)

/-- The content of a block of the given kind. -/
def block (kind : Nat) (s : Bits) (out : Array UInt8) : Progress :=
  match kind with
  | 0 => stored s out
  | 1 => tokens fixedCodes (s.bound + 1) s out
  | 2 =>
    match dynamicCodes s with
    | .ok (codes, s) => tokens codes (s.bound + 1) s out
    | .error e => (out, .error e)
  | _ => (out, .error .invalid)

/-- The blocks of a stream up to the last one. Every block takes three bits. -/
def blocks : (bound : Nat) → Bits → Array UInt8 → Progress
  | 0, _, out => (out, .error .starved)
  | bound + 1, s, out =>
    let header := do
      let (isLast, s) ← s.next
      let (kind, s) ← s.number 2
      .ok (isLast, kind, s)
    match header with
    | .error e => (out, .error e)
    | .ok (isLast, kind, s) =>
      match block kind s out with
      | (out, .error e) => (out, .error e)
      | (out, .ok s) => if isLast then (out, .ok s) else blocks bound s out

/-- What a deflated stream holds, if it is not impossible. -/
def inflate (bytes : Bytes) : Option Unpacked :=
  match blocks (8 * bytes.length + 1) (.ofBytes bytes) #[] with
  | (out, .ok _) => some ⟨out.toList, true⟩
  | (out, .error .starved) => some ⟨out.toList, false⟩
  | (_, .error .invalid) => none

end SubclassIndex.Zip
