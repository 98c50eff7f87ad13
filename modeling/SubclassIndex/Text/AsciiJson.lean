import SubclassIndex.Text.Basic

/-!
# JSON in ASCII

Named texts as a JSON object in one line. Only printable ASCII occurs in it: any other code point is
written by its number, and one beyond U+FFFF by the numbers of its two surrogates.
-/

namespace SubclassIndex.AsciiJson

/-- The letters for the usual controls. -/
def controlLetters : List (Char × Char) :=
  [('\n', 'n'), ('\r', 'r'), ('\t', 't'), ('\x08', 'b'), ('\x0c', 'f')]

/-- A code unit of sixteen bits by its number. -/
def unit (n : Nat) : Text := "\\u" ++ Text.ofHex 4 n

/-- A code point by its number or its two numbers. -/
def numbered (c : CodePoint) : Text :=
  if c.val < 0x10000 then unit c.val
  else unit (0xD800 + (c.val - 0x10000) / 0x400) ++ unit (0xDC00 + (c.val - 0x10000) % 0x400)

/-- A code point inside a JSON string. -/
def escaped (c : CodePoint) : Text :=
  match controlLetters.find? fun e => decide (c = .ofChar e.1) with
  | some e => [.ofChar '\\', .ofChar e.2]
  | none =>
    if c = '"' ∨ c = '\\' then [.ofChar '\\', c]
    else if c.between ' ' '~' then [c]
    else numbered c

/-- A text as a JSON string. -/
def string (t : Text) : Text := "\"" ++ t.flatMap escaped ++ "\""

/-- Named texts as a JSON object. -/
def object (fields : List (Text × Text)) : Text :=
  "\x7b" ++ Text.join ", " (fields.map fun f => string f.1 ++ ": " ++ string f.2) ++ "\x7d"

end SubclassIndex.AsciiJson
