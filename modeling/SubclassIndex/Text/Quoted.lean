import SubclassIndex.Text.Printable

/-!
# Quoted texts

A text is quoted by apostrophes, or by quotation marks if it holds an apostrophe and no quotation
mark. The mark in use and the backslash have a backslash before them, the three usual controls have
their letters, and what is not printable is written by its number.
-/

namespace SubclassIndex.Text

/-- The mark that a text is quoted by. -/
def quoteMark (t : Text) : CodePoint :=
  if t.contains (.ofChar '\x27') && !t.contains (.ofChar '"') then '"' else '\x27'

/-- A code point that is not printable, by as many hexadecimal digits as it takes. -/
def numbered (c : CodePoint) : Text :=
  if c.val < 0x100 then "\\x" ++ Text.ofHex 2 c.val
  else if c.val < 0x10000 then "\\u" ++ Text.ofHex 4 c.val
  else "\\U" ++ Text.ofHex 8 c.val

/-- A code point between two marks. -/
def quotedPoint (mark c : CodePoint) : Text :=
  if c = mark ∨ c = '\\' then [.ofChar '\\', c]
  else if c = '\n' then "\\n"
  else if c = '\r' then "\\r"
  else if c = '\t' then "\\t"
  else if c.isPrintable then [c]
  else numbered c

/-- The text between two marks. -/
def quoted (t : Text) : Text :=
  let mark := quoteMark t
  mark :: t.flatMap (quotedPoint mark) ++ [mark]

end SubclassIndex.Text
