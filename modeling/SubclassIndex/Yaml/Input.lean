import SubclassIndex.Text.Basic

/-!
# Input of a YAML document

A document is read from left to right. The input keeps the text that is still to be read and how
far it has been read: in code points, in lines and in columns. Reading a code point makes the rest
shorter, which is why every loop over the input ends.
-/

namespace SubclassIndex.Yaml

/-- Whether a code point may occur in a document. -/
def isAllowed (c : CodePoint) : Bool :=
  c = '\t' || c = '\n' || c = '\r' || c.between ' ' '~' || c.val = 0x85 ||
    (0xA0 ≤ c.val && c.val < 0xD800) || (0xE000 ≤ c.val && c.val ≤ 0xFFFD) || 0x10000 ≤ c.val

/-- Whether a code point breaks a line. -/
def isBreak (c : CodePoint) : Bool :=
  c = '\n' || c.val = 0x85 || c.val = 0x2028 || c.val = 0x2029

/-- A space or a tab. -/
def isBlank (c : CodePoint) : Bool := c = ' ' || c = '\t'

/-- The mark that may stand at the beginning of a document. It takes no column. -/
def byteOrderMark : CodePoint := ⟨0xFEFF, by decide⟩

/-- Whether a line ends before what comes next. -/
def endsLine (next : Option CodePoint) : Bool := next.all isBreak

/-- Whether a space, a break or the end comes next. -/
def endsField (next : Option CodePoint) : Bool := next.all fun c : CodePoint => c = ' ' || isBreak c

/-- Whether a blank, a break or the end comes next. -/
def endsWord (next : Option CodePoint) : Bool :=
  next.all fun c : CodePoint => isBlank c || isBreak c

/-- What is still to be read, and the position reached. -/
structure Input where
  rest : Text
  /-- How many code points are still to be read. -/
  left : Nat := rest.length
  left_eq : left = rest.length := by rfl
  index : Nat := 0
  line : Nat := 0
  column : Nat := 0

namespace Input

/-- The next code point. -/
def next? (i : Input) : Option CodePoint := i.rest.head?

/-- Whether a given code point comes next. -/
def nextIs (i : Input) (c : CodePoint) : Bool := i.next? = some c

/-- The input after the next code point. -/
def advance (i : Input) : Input :=
  match h : i.rest with
  | [] => i
  | c :: rest =>
    let line := if isBreak c then i.line + 1 else i.line
    let column :=
      if isBreak c then 0 else if c = byteOrderMark then i.column else i.column + 1
    ⟨rest, i.left - 1, by rw [i.left_eq, h]; rfl, i.index + 1, line, column⟩

/-- The input after some code points. -/
def advanceBy : Nat → Input → Input
  | 0, i => i
  | n + 1, i => advanceBy n i.advance

theorem rest_advance (i : Input) : i.advance.rest = i.rest.tail := by
  unfold advance
  split
  · next h => exact h.trans (congrArg List.tail h).symm
  · next h => exact (congrArg List.tail h).symm

theorem rest_advanceBy (n : Nat) (i : Input) : (i.advanceBy n).rest = i.rest.drop n := by
  induction n generalizing i with
  | zero => rfl
  | succ n ih => rw [advanceBy, ih, rest_advance, List.drop_tail]

theorem left_advanceBy_lt {i : Input} {c : CodePoint} {rest : Text} (n : Nat)
    (h : i.rest = c :: rest) : (i.advanceBy (n + 1)).left < i.left := by
  rw [left_eq, left_eq, rest_advanceBy, h, List.drop_succ_cons, List.length_drop,
    List.length_cons]
  exact Nat.lt_succ_of_le (Nat.sub_le _ _)

theorem left_advance_lt {i : Input} {c : CodePoint} {rest : Text} (h : i.rest = c :: rest) :
    i.advance.left < i.left := left_advanceBy_lt 0 h

/-- The code points of a class that come next, and the input after them. -/
def takeWhile (p : CodePoint → Bool) (i : Input) : Text × Input :=
  let taken := i.rest.takeWhile p
  (taken, i.advanceBy taken.length)

/-- The input after the code points of a class. -/
def skipWhile (p : CodePoint → Bool) (i : Input) : Input := (i.takeWhile p).2

/-- The input after spaces. -/
def skipSpaces (i : Input) : Input := i.skipWhile fun c : CodePoint => c = ' '

/-- The rest of the line and the input at its end. -/
def takeLine (i : Input) : Text × Input := i.takeWhile fun c => !isBreak c

/-- The input after a comment, if one comes next. -/
def skipComment (i : Input) : Input := if i.nextIs '#' then i.takeLine.2 else i

/-- A line break that comes next, and the input after it. The two Unicode separators stand for
themselves, the others for a line feed. -/
def takeBreak (i : Input) : Text × Input :=
  match i.rest with
  | [] => ([], i)
  | c :: _ =>
    if !isBreak c then ([], i)
    else ([if c.val = 0x85 then .ofChar '\n' else c], i.advance)

/-- Whether a mark of three code points comes next and stands alone. -/
def marksWith (mark : Text) (i : Input) : Bool := mark.isPrefixOf i.rest && endsWord i.rest[3]?

/-- The mark before a document. -/
def startMark : Text := "---"

/-- The mark after a document. -/
def endMark : Text := "..."

/-- Whether a mark comes next that separates documents. -/
def atDocumentMark (i : Input) : Bool := i.marksWith startMark || i.marksWith endMark

end Input

end SubclassIndex.Yaml
