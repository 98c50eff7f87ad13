import SubclassIndex.Zip.Bits

/-!
# Prefix codes

A prefix code is given by the lengths of its code words: words of one length are consecutive
numbers, and they follow the shorter ones. The lengths may neither claim more words than there are
nor, except for a code of a single bit, leave words unused.
-/

namespace SubclassIndex.Zip

/-- A prefix code: how many words there are of each length from one on, and the symbols in the
order of their words. -/
structure PrefixCode where
  counts : List Nat
  symbols : Array Nat

namespace PrefixCode

/-- The symbols whose words have a length. -/
def symbolsOfLength (lengths : List Nat) (length : Nat) : List Nat :=
  lengths.zipIdx.filterMap fun (l, symbol) => if l = length then some symbol else none

/-- The longest word of a code, at least one. -/
def longestOf (lengths : List Nat) : Nat := lengths.foldl max 1

/-- The code with given word lengths; length zero means that a symbol has no word. -/
def ofLengths (lengths : List Nat) : PrefixCode :=
  let groups := (List.range (longestOf lengths)).map fun n => symbolsOfLength lengths (n + 1)
  ⟨groups.map List.length, groups.flatten.toArray⟩

/-- How many words of the next length are free after words of each length have been taken; negative
as soon as there are too many. -/
def free (counts : List Nat) : Int :=
  counts.foldl
    (fun (left : Int) (count : Nat) => if left < 0 then left else 2 * left - count) 1

/-- Whether the code has no word at all. -/
def isEmpty (c : PrefixCode) : Bool := c.symbols.isEmpty

/-- Whether the words are all used, or the code may leave some unused. -/
def isUsable (c : PrefixCode) (allowPartial : Bool) : Bool :=
  let left := free c.counts
  c.isEmpty || (decide (0 ≤ left) && (left = 0 || (allowPartial && c.counts.length = 1)))

/-- The symbol of the word at the beginning of some bits, and none where no symbol has it. -/
def decode (c : PrefixCode) (s : Bits) : Except Trouble (Option Nat × Bits) :=
  go c.counts 0 0 0 s
where
  /-- `word` is what has been read, `first` the first word of this length and `index` the number of
  shorter words. -/
  go : List Nat → (word first index : Nat) → Bits → Except Trouble (Option Nat × Bits)
    | [], _, _, _, s => .ok (none, s)
    | count :: counts, word, first, index, s => do
      let (bit, s) ← s.next
      let word := 2 * word + bit.toNat
      if word < first + count then .ok (c.symbols[index + (word - first)]?, s)
      else go counts word (2 * (first + count)) (index + count) s

end PrefixCode

end SubclassIndex.Zip
