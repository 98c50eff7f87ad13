import SubclassIndex.Yaml.Tag
import SubclassIndex.Yaml.Timestamp

/-!
# Types of plain scalars

A plain scalar without a tag has the type that its spelling shows: a truth value, a number in one of
several bases, a date, nothing, or else a text. A bare tag lets the spelling of any scalar decide,
and then one line break at its end does not count.
-/

namespace SubclassIndex.Yaml.Tag

/-- The text without a sign at its beginning. -/
def unsigned (t : Text) : Text :=
  match t with
  | c :: rest => if c = '-' ∨ c = '+' then rest else t
  | [] => []

/-- A digit or an underscore. -/
def isDigitOrBar (c : CodePoint) : Bool := c.isDigit || c = '_'

/-- Whether a text begins with a digit that passes a test and goes on with digits and underscores
only. -/
def isDigits (first : CodePoint → Bool) (t : Text) : Bool :=
  match t with
  | c :: rest => c.isDigit && first c && rest.all isDigitOrBar
  | [] => false

/-- Whether a text is a number below sixty in base sixty. -/
def isBaseSixtyDigit (t : Text) : Bool :=
  match t with
  | [c] => c.isDigit
  | [c, d] => c.between '0' '5' && d.isDigit
  | _ => false

/-- Whether a text begins as digits do and goes on with digits of base sixty after colons. -/
def isBaseSixty (first : CodePoint → Bool) (t : Text) : Bool :=
  match t.splitOnPoint ':' with
  | head :: next :: rest => isDigits first head && (next :: rest).all isBaseSixtyDigit
  | _ => false

/-- Whether a text begins with a zero and the given letter and goes on with at least one more code
point, all of a class. -/
def isInBase (letter : Char) (p : CodePoint → Bool) (t : Text) : Bool :=
  match t with
  | a :: b :: c :: rest => a = '0' && b = letter && (c :: rest).all fun x => p x || x = '_'
  | _ => false

/-- Whether a text begins with a zero and goes on with octal digits. -/
def isOctal (t : Text) : Bool :=
  match t with
  | a :: rest => a = '0' && rest.all fun c => c.between '0' '7' || c = '_'
  | [] => false

/-- Whether a text spells an integer. -/
def isInt (t : Text) : Bool :=
  let u := unsigned t
  isOctal u || isInBase 'b' (fun c => c.between '0' '1') u || isInBase 'x' CodePoint.isHexDigit u ||
    isDigits (fun c : CodePoint => c ≠ '0') u || isBaseSixty (fun c : CodePoint => c ≠ '0') u

/-- Whether a text is empty or an exponent with its sign. -/
def isExponent (t : Text) : Bool :=
  match t with
  | [] => true
  | e :: sign :: c :: rest =>
    (e = 'e' || e = 'E') && (sign = '-' || sign = '+') && (c :: rest).all CodePoint.isDigit
  | _ => false

/-- Whether a text ends as a number with a point does: with digits and an exponent. -/
def isFraction (t : Text) : Bool := isExponent (t.dropWhile isDigitOrBar)

/-- Whether a text spells infinity, from the point on. -/
def isInfinityWord (t : Text) : Bool := t ∈ ([".inf", ".Inf", ".INF"] : List Text)

/-- Whether a text stands for what is no number. -/
def isNaNWord (t : Text) : Bool := t ∈ ([".nan", ".NaN", ".NAN"] : List Text)

/-- Whether a text spells a number with a point. Only one with digits before the point may have a
sign. -/
def isFloat (t : Text) : Bool :=
  let u := unsigned t
  let whole := u.takeWhile fun c : CodePoint => c ≠ '.'
  let fromPoint := u.drop whole.length
  isInfinityWord u || isNaNWord t ||
    match fromPoint with
    | [] => false
    | _ :: rest =>
      (isDigits (fun _ => true) whole && isFraction rest) ||
        (isBaseSixty (fun _ => true) whole && rest.all isDigitOrBar) ||
        (whole.isEmpty && u.length = t.length && rest.head?.any CodePoint.isDigit &&
          isFraction rest)

/-- The spellings of truth values. -/
def boolWords : List Text :=
  ["yes", "Yes", "YES", "no", "No", "NO", "true", "True", "TRUE", "false", "False", "FALSE", "on",
    "On", "ON", "off", "Off", "OFF"]

/-- The spellings of the absent value. -/
def nullWords : List Text := ["~", "null", "Null", "NULL", ""]

/-- The indicators that are no text by themselves. -/
def bareIndicators : List Text := ["!", "&", "*"]

/-- The type that a spelling without a line break at its end shows. -/
def ofSpelling (t : Text) : Tag :=
  if t ∈ boolWords then bool
  else if isFloat t then float
  else if isInt t then int
  else if t = ("<<" : Text) then merge
  else if t ∈ nullWords then null
  else if isTimestamp t then timestamp
  else if t = ("=" : Text) then default
  else if t ∈ bareIndicators then unknown
  else text

/-- The type of a scalar whose spelling decides. A line break alone is a text. -/
def ofPlain (t : Text) : Tag :=
  if t = ("\n" : Text) then text else ofSpelling t.withoutFinalBreak

end SubclassIndex.Yaml.Tag
