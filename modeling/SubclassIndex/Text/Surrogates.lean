import SubclassIndex.Text.Basic

/-!
# Surrogate pairs

A code point beyond U+FFFF is written in sixteen-bit units as a high and a low surrogate. A text is
well paired when each of its surrogates stands in such a pair, and then the pairs can be joined.
-/

namespace SubclassIndex

namespace CodePoint

/-- The code point that a high and a low surrogate stand for. -/
def ofPair (high low : CodePoint) : CodePoint :=
  ⟨0x10000 + (high.val - 0xD800) % 0x400 * 0x400 + (low.val - 0xDC00) % 0x400, by omega⟩

/-- The high surrogate of a code point beyond U+FFFF. -/
def highHalf (c : CodePoint) : CodePoint :=
  ⟨0xD800 + (c.val - 0x10000) / 0x400 % 0x400, by omega⟩

/-- The low surrogate of a code point beyond U+FFFF. -/
def lowHalf (c : CodePoint) : CodePoint :=
  ⟨0xDC00 + (c.val - 0x10000) % 0x400, by omega⟩

end CodePoint

namespace Text

/-- Whether every surrogate stands in a pair. -/
def isWellPaired (t : Text) : Bool :=
  go false t
where
  /-- `owed` says that the code point before was a high surrogate. -/
  go (owed : Bool) : Text → Bool
    | [] => !owed
    | c :: rest =>
      if c.isLowSurrogate then owed && go false rest
      else !owed && go c.isHighSurrogate rest

/-- Every high surrogate joined with a low one after it; all else as it is. -/
def joinPairs (t : Text) : Text :=
  go none t []
where
  /-- `held` is a high surrogate that waits for its partner; `done` is the result backwards. -/
  go (held : Option CodePoint) : Text → Text → Text
    | [], done => (held.toList ++ done).reverse
    | c :: rest, done =>
      match held with
      | some high =>
        if c.isLowSurrogate then go none rest (.ofPair high c :: done)
        else if c.isHighSurrogate then go (some c) rest (high :: done)
        else go none rest (c :: high :: done)
      | none => if c.isHighSurrogate then go (some c) rest done else go none rest (c :: done)

/-- Every code point beyond U+FFFF as its two surrogates. -/
def splitPairs (t : Text) : Text :=
  t.flatMap fun c => if c.val < 0x10000 then [c] else [c.highHalf, c.lowHalf]

end Text

end SubclassIndex
