import SubclassIndex.Text.Basic

/-!
# Writing properties text

The written form of an entry: every sign that the reader takes for something else has a backslash
before it, the control characters that have a letter are written by it, and all else outside
printable ASCII by four hexadecimal digits. A file has such an entry in a line, with comments and
blank lines around it.
-/

namespace SubclassIndex.Properties

/-! ## Entries -/

/-- The letters that stand for ten and more in base sixteen. -/
inductive HexLetters
  | small
  | capital

/-- The digits of base sixteen in their order. -/
def HexLetters.digits : HexLetters → Text
  | small => "0123456789abcdef"
  | capital => "0123456789ABCDEF"

def HexLetters.digit (letters : HexLetters) (n : Nat) : CodePoint := letters.digits.getD n '0'

/-- A code point up to U+FFFF by its four hexadecimal digits. -/
def hexEscape (letters : HexLetters) (c : CodePoint) : Text :=
  "\\u" ++ [0x1000, 0x100, 0x10, 1].map fun place => letters.digit (c.val / place % 16)

/-- The written form of a code point in a text; a space is written as it is. -/
def escapePoint (letters : HexLetters) (c : CodePoint) : Text :=
  if c = '\t' then "\\t"
  else if c = '\n' then "\\n"
  else if c = '\r' then "\\r"
  else if c = '\x0c' then "\\f"
  else if c = '\\' ∨ c = '=' ∨ c = ':' ∨ c = '#' ∨ c = '!' then [.ofChar '\\', c]
  else if c.between ' ' '~' then [c]
  else hexEscape letters c

/-- The written form of a code point where a space needs a backslash too. -/
def escapeAny (letters : HexLetters) (c : CodePoint) : Text :=
  if c = ' ' then "\\ " else escapePoint letters c

/-- The written form of a key: every space is escaped. -/
def escapeKey (letters : HexLetters) (key : Text) : Text := key.flatMap (escapeAny letters)

/-- The written form of a value: only a space at its beginning is escaped. -/
def escapeValue (letters : HexLetters) : Text → Text
  | [] => []
  | c :: rest => escapeAny letters c ++ rest.flatMap (escapePoint letters)

/-- An entry in one line, without its end. -/
def entryLine (letters : HexLetters) (key value : Text) : Text :=
  escapeKey letters key ++ "=" ++ escapeValue letters value

/-! ## Files -/

/-- What ends a line. -/
inductive LineEnd
  | feed
  | carriageReturn
  | returnAndFeed

def LineEnd.text : LineEnd → Text
  | feed => "\n"
  | carriageReturn => "\r"
  | returnAndFeed => "\r\n"

/-- A line of a file: an entry, or a line that means nothing, as it is written. -/
inductive FileLine
  | entry (key value : Text)
  | comment (line : Text)
  | blank (line : Text)

namespace FileLine

/-- A line as it is written, without its end. -/
def text (letters : HexLetters) : FileLine → Text
  | entry key value => entryLine letters key value
  | comment line | blank line => line

def keyAndValue? : FileLine → Option (Text × Text)
  | entry key value => some (key, value)
  | comment _ | blank _ => none

end FileLine

/-- The lines of a file with their ends. -/
abbrev File := List (FileLine × LineEnd)

def fileText (letters : HexLetters) (file : File) : Text :=
  file.flatMap fun (line, lineEnd) => line.text letters ++ lineEnd.text

/-- The entries of a file in the order of its lines. -/
def fileEntries (file : File) : List (Text × Text) :=
  file.filterMap fun (line, _) => line.keyAndValue?

end SubclassIndex.Properties
