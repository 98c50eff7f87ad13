import SubclassIndex.Text.Basic

/-!
# Blank code points

The blank code points are those with the Unicode property White_Space and the four information
separators U+001C to U+001F. Names and values are trimmed of them.
-/

namespace SubclassIndex

/-- The ranges of the blank code points, in ascending order. -/
def blankRanges : List (Nat × Nat) :=
  [(0x09, 0x0D), (0x1C, 0x20), (0x85, 0x85), (0xA0, 0xA0), (0x1680, 0x1680), (0x2000, 0x200A),
    (0x2028, 0x2029), (0x202F, 0x202F), (0x205F, 0x205F), (0x3000, 0x3000)]

/-- Whether a code point is blank. -/
def CodePoint.isBlank (c : CodePoint) : Bool :=
  blankRanges.any fun r => decide (r.1 ≤ c.val) && decide (c.val ≤ r.2)

namespace Text

/-- Whether a text holds nothing but blanks. -/
def isBlank (t : Text) : Bool := t.all CodePoint.isBlank

/-- The text without the blanks at its ends. -/
def strip (t : Text) : Text := t.trim CodePoint.isBlank

end Text

/-- There are twenty-nine blank code points. -/
example : (blankRanges.map fun r => r.2 + 1 - r.1).sum = 29 := by decide

end SubclassIndex
