import SubclassIndex.Decimal.Binary64
import SubclassIndex.Text.Integer

/-!
# Reading decimals

A floating-point number is read from digits with at most one point among them and perhaps an
exponent, or from a word for infinity or for what is no number. It is the one nearest to the decimal
that is written. Blanks may surround it, a sign may precede it, and the digits may be those of any
script.
-/

namespace SubclassIndex.Decimal

/-- The values of the digits that a text begins with, and the rest of the text. -/
def takeDigits : Text → List Nat × Text
  | [] => ([], [])
  | c :: rest =>
    match c.decimalValue? with
    | some d =>
      let (ds, rest) := takeDigits rest
      (d :: ds, rest)
    | none => ([], c :: rest)

/-- The sign that a text begins with and the rest; a text without one counts as positive. -/
def takeSign : Text → Bool × Text
  | [] => (false, [])
  | c :: rest =>
    if c = '-' then (true, rest) else if c = '+' then (false, rest) else (false, c :: rest)

/-- The exponent that a whole text writes. -/
def exponent? (t : Text) : Option Int :=
  match t with
  | [] => some 0
  | c :: rest =>
    if c.toLowerAscii ≠ 'e' then none
    else
      let (negative, rest) := takeSign rest
      match takeDigits rest with
      | ([], _) | (_, _ :: _) => none
      | (ds, []) => some (if negative then -(Digits.value 10 ds : Int) else Digits.value 10 ds)

/-- The words for numbers that have no digits. -/
def ofWord? (negative : Bool) (t : Text) : Option Binary64 :=
  let word := t.toLowerAscii
  if word = ("inf" : Text) ∨ word = ("infinity" : Text) then some (.infinity negative)
  else if word = ("nan" : Text) then some .nan
  else none

/-- The number that a text without blanks and sign writes. -/
def readUnsigned? (negative : Bool) (t : Text) : Option Binary64 :=
  let (whole, rest) := takeDigits t
  let (fraction, rest) :=
    match rest with
    | [] => ([], [])
    | c :: more => if c = '.' then takeDigits more else ([], rest)
  if whole.isEmpty ∧ fraction.isEmpty then ofWord? negative t
  else
    (exponent? rest).map fun e =>
      .ofDecimal negative (Digits.value 10 (whole ++ fraction)) (e - fraction.length)

/-- The number that a text writes. -/
def read? (t : Text) : Option Binary64 :=
  let (negative, t) := takeSign (t.trim Text.isIntegerBlank)
  readUnsigned? negative t

end SubclassIndex.Decimal
