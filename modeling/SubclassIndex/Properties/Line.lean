import SubclassIndex.Text.Lines

/-!
# Logical lines of properties text

Properties text is read by logical lines. A natural line that ends in an odd number of backslashes
goes on in the next one, whose leading white space does not count. Blank lines and lines that begin
with a comment sign are skipped, but not where they continue the line before.
-/

namespace SubclassIndex.Properties

/-- The white space of properties text: space, tab and form feed. -/
def isSpace (c : CodePoint) : Bool := c = ' ' || c = '\t' || c = '\x0c'

/-- The signs that open a comment line. -/
def isCommentSign (c : CodePoint) : Bool := c = '#' || c = '!'

/-- Whether a line without its leading white space holds no entry. -/
def isSkipped (line : Text) : Bool :=
  match line with
  | [] => true
  | c :: _ => isCommentSign c

/-- Whether a line goes on in the next one: it ends in an odd number of backslashes. -/
def continues (line : Text) : Bool :=
  (line.reverse.takeWhile fun c : CodePoint => c = '\\').length % 2 = 1

/-- The logical lines of some natural lines. -/
def logicalLines (lines : List Text) : List Text :=
  go none lines
where
  /-- `held` is the beginning of a line that goes on. At the end of the text it counts as a line. -/
  go (held : Option Text) : List Text → List Text
    | [] => held.toList
    | line :: rest =>
      let line := line.dropWhile isSpace
      match held with
      | none =>
        if isSkipped line then go none rest
        else if continues line then go (some line.dropLast) rest
        else line :: go none rest
      | some front =>
        if continues line then go (some (front ++ line.dropLast)) rest
        else (front ++ line) :: go none rest

end SubclassIndex.Properties
