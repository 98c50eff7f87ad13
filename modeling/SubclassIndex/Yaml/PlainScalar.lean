import SubclassIndex.Yaml.Input

/-!
# Plain scalars

A plain scalar has no quotes. It goes on over spaces and line breaks until a colon or a hash sign
that has a blank on the right side of it, an indicator of a flow collection around it, a line that
is indented too little, or a mark between documents. A single line break between two words counts
as a space, and of several the first is dropped.
-/

namespace SubclassIndex.Yaml

/-- The indicators that a flow collection gives a meaning to. -/
def isFlowIndicator (c : CodePoint) : Bool :=
  c = ',' || c = '[' || c = ']' || c = '\x7b' || c = '\x7d'

/-- Whether a colon separates a key from a value, by what comes next. -/
def colonSeparates (inFlow : Bool) (next : Option CodePoint) : Bool :=
  endsWord next || (inFlow && next.any isFlowIndicator)

/-- Whether a word of a plain scalar ends before a code point, by what comes after it. -/
def endsPlainWord (inFlow : Bool) (c : CodePoint) (next : Option CodePoint) : Bool :=
  isBlank c || isBreak c || (c = ':' && colonSeparates inFlow next) ||
    (inFlow && (isFlowIndicator c || c = '?'))

/-- The length of the word that a text begins with, added to a number. -/
def plainWordLength (inFlow : Bool) (n : Nat) : Text → Nat
  | [] => n
  | c :: rest =>
    if endsPlainWord inFlow c rest.head? then n else plainWordLength inFlow (n + 1) rest

/-- The line breaks before the next word and the input after them and the spaces around them.
There are none where a mark between documents comes after a break. `breaks` holds those found so
far, backwards. -/
def plainBreaks (i : Input) (breaks : Text) : Option Text × Input :=
  match _h : i.rest with
  | [] => (some breaks.reverse, i)
  | c :: _ =>
    if c = ' ' then plainBreaks i.advance breaks
    else if isBreak c then
      if i.advance.atDocumentMark then (none, i.advance)
      else plainBreaks i.advance (i.takeBreak.1 ++ breaks)
    else (some breaks.reverse, i)
termination_by i.left
decreasing_by all_goals exact Input.left_advance_lt _h

/-- What line breaks between two words stand for. -/
def foldedBreaks (first : Text) (others : Text) : Text :=
  if first ≠ ("\n" : Text) then first ++ others
  else if others.isEmpty then " "
  else others

/-- What stands between two words, whether there was a line break, and the input after it. -/
def plainSpaces (i : Input) : Text × Bool × Input :=
  let (spaces, j) := i.takeWhile fun c : CodePoint => c = ' '
  if j.next?.any isBreak then
    let (first, k) := j.takeBreak
    if k.atDocumentMark then ([], true, k)
    else
      match plainBreaks k [] with
      | (none, i) => ([], true, i)
      | (some others, i) => (foldedBreaks first others, true, i)
  else (spaces, false, j)

/-- A plain scalar from one of its words on. `spaces` stands before the word, `pieces` holds what
was read before, backwards, and `crossed` says whether a line break was the last of it. -/
def plainWords (inFlow : Bool) (indent : Int) (i : Input) (spaces : Text) (pieces : List Text)
    (crossed : Bool) : Text × Bool × Input :=
  let n := plainWordLength inFlow 0 i.rest
  if i.nextIs '#' ∨ n = 0 then (pieces.reverse.flatten, crossed, i)
  else
    let pieces := i.rest.take n :: spaces :: pieces
    let (spaces, crossed, j) := plainSpaces (i.advanceBy n)
    let stops := spaces.isEmpty || j.nextIs '#' || (!inFlow && decide ((j.column : Int) < indent))
    if _h : !stops ∧ j.left < i.left then
      plainWords inFlow indent j spaces pieces crossed
    else (pieces.reverse.flatten, crossed, j)
termination_by i.left
decreasing_by exact _h.2

/-- A plain scalar, whether a line break was read after it, and the input after it. Outside flow
collections its lines are indented by at least `indent`. -/
def takePlain (inFlow : Bool) (indent : Int) (i : Input) : Text × Bool × Input :=
  plainWords inFlow indent i [] [] false

/-- The indicators that a plain scalar cannot begin with, except for three of them. -/
def isIndicator (c : CodePoint) : Bool :=
  ("-?:,[]\x7b\x7d#&*!|>\x27\"%@\x60" : Text).contains c

/-- Whether a plain scalar comes next. A hyphen may begin one if a word goes on after it, and so may
a question mark or a colon outside flow collections. -/
def startsPlain (inFlow : Bool) (i : Input) : Bool :=
  match i.rest with
  | [] => false
  | c :: rest =>
    (!isIndicator c && !isBlank c && !isBreak c) ||
      (!endsWord rest.head? && (c = '-' || (!inFlow && (c = '?' || c = ':'))))

end SubclassIndex.Yaml
