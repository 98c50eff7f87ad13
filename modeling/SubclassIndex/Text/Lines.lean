import SubclassIndex.Text.Basic

/-!
# Lines of a text

A line ends at a line feed, a carriage return, the two together, a vertical tab, a form feed, one
of the separators U+001C to U+001E, U+0085, U+2028 or U+2029. The ends are no part of the lines,
and a text that ends with a line end has no empty line after it.
-/

namespace SubclassIndex

/-- Whether a code point ends a line. -/
def CodePoint.isLineEnd (c : CodePoint) : Bool :=
  (0x0A ≤ c.val && c.val ≤ 0x0D) || (0x1C ≤ c.val && c.val ≤ 0x1E) || c.val == 0x85 ||
    c.val == 0x2028 || c.val == 0x2029

namespace Text

/-- The lines of a text. -/
def lines (t : Text) : List Text :=
  go false t []
where
  /-- `afterReturn` says that a carriage return has just ended a line, so that a line feed belongs
  to it; `line` is the current line backwards. -/
  go (afterReturn : Bool) : Text → Text → List Text
    | [], [] => []
    | [], line => [line.reverse]
    | c :: rest, line =>
      if afterReturn && c = '\n' then go false rest []
      else if c.isLineEnd then line.reverse :: go (c = '\r') rest []
      else go false rest (c :: line)

end Text

end SubclassIndex
