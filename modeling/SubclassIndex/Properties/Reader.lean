import SubclassIndex.Properties.Line
import SubclassIndex.Table
import SubclassIndex.Text.Integer

/-!
# Reading properties text

Each logical line is an entry. The key ends at the first equals sign, colon or white space that no
backslash precedes; the value begins after the separator and the white space around it. In both a
backslash makes the next code point stand for another one or for itself.
-/

namespace SubclassIndex.Properties

/-- The signs between a key and a value. -/
def isSeparator (c : CodePoint) : Bool := c = '=' || c = ':'

/-- The key of a line as it is written, and what follows it. -/
def splitKey (line : Text) : Text × Text :=
  go false line
where
  /-- `escaped` says that the code point before was a backslash that escapes. -/
  go (escaped : Bool) : Text → Text × Text
    | [] => ([], [])
    | c :: rest =>
      if !escaped && (isSeparator c || isSpace c) then ([], c :: rest)
      else
        let (key, after) := go (!escaped && c = '\\') rest
        (c :: key, after)

/-- The value as it is written, from what follows the key: at most one sign separates the two. -/
def dropSeparator (after : Text) : Text :=
  match after.dropWhile isSpace with
  | c :: rest => if isSeparator c then rest.dropWhile isSpace else c :: rest
  | [] => []

/-- The code point that four hexadecimal digits name. -/
def unicodeEscape? (digits : Text) : Option CodePoint :=
  match Text.toInt? 16 digits with
  | some (.ofNat n) => CodePoint.ofNat? n
  | _ => none

/-- What stands after a backslash: the code point that is meant, and how many code points say so. -/
def escapeMeaning (c : CodePoint) (rest : Text) : CodePoint × Nat :=
  if c = 't' then ('\t', 1)
  else if c = 'n' then ('\n', 1)
  else if c = 'r' then ('\r', 1)
  else if c = 'f' then ('\x0c', 1)
  else if c = 'u' ∧ 4 ≤ (rest.take 4).length then
    match unicodeEscape? (rest.take 4) with
    | some named => (named, 5)
    | none => (c, 1)
  else (c, 1)

/-- The text that a written key or value means. A backslash at the end stands for itself. -/
def unescape (t : Text) : Text :=
  go 0 t
where
  /-- `skip` says how many code points belong to an escape that has been read. -/
  go : Nat → Text → Text
    | _, [] => []
    | skip + 1, _ :: rest => go skip rest
    | 0, c :: rest =>
      match rest with
      | [] => [c]
      | d :: rest' =>
        if c = '\\' then
          let (meant, width) := escapeMeaning d rest'
          meant :: go width (d :: rest')
        else c :: go 0 (d :: rest')

/-- The key and the value of a logical line. -/
def entryOf (line : Text) : Text × Text :=
  let (key, after) := splitKey line
  (unescape key, unescape (dropSeparator after))

/-- The entries of a text in the order of its lines, repeated keys included. -/
def entries (t : Text) : List (Text × Text) := (logicalLines t.lines).map entryOf

/-- The table that a text writes. -/
def read (t : Text) : Table Text Text := .ofList (entries t)

end SubclassIndex.Properties
