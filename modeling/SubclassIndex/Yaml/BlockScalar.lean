import SubclassIndex.Yaml.Fault
import SubclassIndex.Yaml.Input

/-!
# Block scalars

A block scalar stands on lines of its own that are indented. Its header says how the lines are
joined, what becomes of the line breaks at the end, and perhaps how far the lines are indented;
otherwise the first line that is not blank decides.
-/

namespace SubclassIndex.Yaml

/-- What becomes of the line breaks at the end of a block scalar. -/
inductive Chomping
  /-- One is kept. -/
  | clip
  /-- None is kept. -/
  | strip
  /-- All are kept. -/
  | keep

/-- The header of a block scalar. -/
structure BlockHeader where
  chomping : Chomping
  /-- How much further the lines are indented than what is around them. -/
  increment : Option Nat

/-- The chomping that an indicator asks for. -/
def chomping? (c : CodePoint) : Option Chomping :=
  if c = '+' then some .keep else if c = '-' then some .strip else none

/-- The chomping indicator that comes next, if one does, and the input after it. -/
def takeChomping (i : Input) : Option Chomping × Input :=
  match i.next?.bind chomping? with
  | some c => (some c, i.advance)
  | none => (none, i)

/-- The indentation indicator that comes next, if one does, and the input after it. -/
def takeIncrement (i : Input) : Except Fault (Option Nat × Input) :=
  match i.rest with
  | c :: _ =>
    if c = '0' then .error .malformed
    else if c.isDigit then .ok (some (c.val - 48), i.advance)
    else .ok (none, i)
  | [] => .ok (none, i)

/-- The rest of a line that may hold spaces and a comment, and the break at its end. -/
def skipRestOfLine (i : Input) : Except Fault Input :=
  let j := i.skipSpaces.skipComment
  if endsLine j.next? then .ok j.takeBreak.2 else .error .malformed

/-- The header of a block scalar and the input at the line after it. Its two indicators may come in
either order. -/
def takeHeader (i : Input) : Except Fault (BlockHeader × Input) := do
  let (before, i) := takeChomping i
  let (increment, i) ← takeIncrement i
  let (chomping, i) := if before.isSome then (before, i) else takeChomping i
  if !endsField i.next? then .error .malformed
  else
    let i ← skipRestOfLine i
    .ok (⟨chomping.getD .clip, increment⟩, i)

/-- The input after spaces, up to a column. -/
def skipIndent (column : Nat) (i : Input) : Input :=
  i.advanceBy ((i.rest.take (column - i.column)).takeWhile fun c : CodePoint => c = ' ').length

/-- The breaks of the blank lines before a block scalar, the greatest column of a space among them
and in the line after them, and the input after these spaces. -/
def leadingBreaks (i : Input) (breaks : Text) (column : Nat) : Text × Nat × Input :=
  match _h : i.rest with
  | [] => (breaks.reverse, column, i)
  | c :: _ =>
    if c = ' ' then leadingBreaks i.advance breaks (max column i.advance.column)
    else if isBreak c then leadingBreaks i.advance (i.takeBreak.1 ++ breaks) column
    else (breaks.reverse, column, i)
termination_by i.left
decreasing_by all_goals exact Input.left_advance_lt _h

/-- The breaks of blank lines, and the input after them and the indentation of the line after
them. -/
def blankLines (indent : Nat) (i : Input) (breaks : Text) : Text × Input :=
  let j := skipIndent indent i
  let (found, k) := j.takeBreak
  if found.isEmpty then (breaks.reverse, j)
  else if _h : k.left < i.left then blankLines indent k (found ++ breaks)
  else (breaks.reverse, j)
termination_by i.left

/-- Whether a line of a block scalar comes next. -/
def atBlockLine (indent : Nat) (i : Input) : Bool := i.column = indent && i.next?.isSome

/-- What joins two lines. A folded scalar joins them by a space, unless one of the two begins with a
blank or there are blank lines between. -/
def lineJoint (folded : Bool) (line found : Text) (breaks : Text) (next : Option CodePoint) :
    Text :=
  if folded ∧ found = ("\n" : Text) ∧ !line.head?.any isBlank ∧ !next.any isBlank then
    if breaks.isEmpty then " " else []
  else found

/-- The lines of a block scalar with what joins them, the last break and the blank lines after it.
`breaks` are those of the blank lines before, and `pieces` holds what was read, backwards. -/
def blockLines (folded : Bool) (indent : Nat) (i : Input) (breaks : Text) (pieces : List Text) :
    List Text × Text × Text × Input :=
  let (line, j) := i.takeLine
  let (found, k) := j.takeBreak
  let pieces := line :: breaks :: pieces
  let (breaks, l) := blankLines indent k []
  if _h : atBlockLine indent l ∧ l.left < i.left then
    blockLines folded indent l breaks (lineJoint folded line found breaks l.next? :: pieces)
  else (pieces, found, breaks, l)
termination_by i.left
decreasing_by exact _h.2

/-- A block scalar in surroundings that are indented by `around`, and the input after it. The
indicator that begins it has been read. -/
def takeBlock (folded : Bool) (around : Int) (i : Input) : Except Fault (Text × Input) := do
  let (header, i) ← takeHeader i
  let least := (max (around + 1) 1).toNat
  let (indent, breaks, i) :=
    match header.increment with
    | some n =>
      let indent := least + n - 1
      let (breaks, i) := blankLines indent i []
      (indent, breaks, i)
    | none =>
      let (breaks, column, i) := leadingBreaks i [] 0
      (max least column, breaks, i)
  let (pieces, last, after, i) :=
    if atBlockLine indent i then blockLines folded indent i breaks []
    else ([], [], breaks, i)
  let ending : Text :=
    match header.chomping with
    | .clip => last
    | .strip => []
    | .keep => last ++ after
  .ok (pieces.reverse.flatten ++ ending, i)

end SubclassIndex.Yaml
