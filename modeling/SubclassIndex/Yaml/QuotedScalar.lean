import SubclassIndex.Text.Integer
import SubclassIndex.Yaml.Fault
import SubclassIndex.Yaml.PlainScalar

/-!
# Quoted scalars

Between apostrophes an apostrophe is written twice. Between quotation marks a backslash begins an
escape: a letter for a control or a special space, a code point by its number, or a line break that
is to be dropped. Line breaks are folded as in plain scalars.
-/

namespace SubclassIndex.Yaml

/-- The code points that a backslash and a character stand for. -/
def escapes : List (Char × Nat) :=
  [('0', 0), ('a', 7), ('b', 8), ('t', 9), ('\t', 9), ('n', 10), ('v', 11), ('f', 12), ('r', 13),
    ('e', 0x1B), (' ', 0x20), ('"', 0x22), ('\\', 0x5C), ('/', 0x2F), ('N', 0x85), ('_', 0xA0),
    ('L', 0x2028), ('P', 0x2029)]

/-- The code point that a backslash and another code point stand for. -/
def escaped? (c : CodePoint) : Option CodePoint :=
  match escapes.find? fun e => decide (c = .ofChar e.1) with
  | some e => CodePoint.ofNat? e.2
  | none => none

/-- How many digits the number of a code point has, by the letter before it. -/
def escapeWidth? (c : CodePoint) : Option Nat :=
  if c = 'x' then some 2 else if c = 'u' then some 4 else if c = 'U' then some 8 else none

/-- The value of hexadecimal digits. -/
def hexValue (digits : Text) : Nat :=
  digits.foldl (fun n c => n * 16 + (Text.digitValue? c).getD 0) 0

/-- The numbers from which on a number is not even a candidate for a code point. -/
def codeLimit : Nat := 0x80000000

/-- The code point with a number of so many digits that comes next. -/
def numberedPoint (width : Nat) (i : Input) : Except Fault CodePoint :=
  let digits := i.rest.take width
  if digits.length < width ∨ !digits.all CodePoint.isHexDigit then .error .malformed
  else
    match CodePoint.ofNat? (hexValue digits) with
    | some c => .ok c
    | none => .error (if hexValue digits < codeLimit then .outOfRange else .overflow)

/-- The line breaks that come next, with blanks between them. `breaks` holds those found so far,
backwards. A mark between documents must not come after one. -/
def quotedBreaks (i : Input) (breaks : Text) : Except Fault (Text × Input) :=
  if i.atDocumentMark then .error .malformed
  else
    let j := i.skipWhile isBlank
    let (found, k) := j.takeBreak
    if found.isEmpty then .ok (breaks.reverse, j)
    else if _h : k.left < i.left then quotedBreaks k (found ++ breaks)
    else .error .malformed
termination_by i.left

/-- What stands between two words of a quoted scalar, and the input after it. -/
def quotedSpaces (i : Input) : Except Fault (Text × Input) :=
  let (blanks, j) := i.takeWhile isBlank
  match j.next? with
  | none => .error .malformed
  | some c =>
    if !isBreak c then .ok (blanks, j)
    else
      let (first, k) := j.takeBreak
      (quotedBreaks k []).map fun (others, i) => (foldedBreaks first others, i)

/-- What an escape stands for, and the input after it. The backslash has been read. -/
def takeEscape (i : Input) : Except Fault (Text × Input) :=
  match i.rest with
  | [] => .error .malformed
  | c :: _ =>
    match escaped? c, escapeWidth? c with
    | some e, _ => .ok ([e], i.advance)
    | none, some width =>
      (numberedPoint width i.advance).map fun e => ([e], i.advance.advanceBy width)
    | none, none => if isBreak c then quotedBreaks i.takeBreak.2 [] else .error .malformed

/-- A word of a quoted scalar, added backwards to `done`, and the input after it. -/
def quotedWord (double : Bool) (i : Input) (done : Text) : Except Fault (Text × Input) :=
  match _h : i.rest with
  | [] => .ok (done, i)
  | c :: rest =>
    if isBlank c || isBreak c then .ok (done, i)
    else if double && c = '\\' then
      match takeEscape i.advance with
      | .error e => .error e
      | .ok (t, j) =>
        if _h' : j.left < i.left then quotedWord double j (t.reverse ++ done)
        else .error .malformed
    else if double && c = '"' then .ok (done, i)
    else if !double && c = '\x27' then
      if rest.head? = some (.ofChar '\x27') then quotedWord double (i.advanceBy 2) (c :: done)
      else .ok (done, i)
    else quotedWord double i.advance (c :: done)
termination_by i.left
decreasing_by
  · exact _h'
  · exact Input.left_advanceBy_lt 1 _h
  · exact Input.left_advance_lt _h

/-- A quoted scalar from one of its words on, with what was read before in `done`, backwards. -/
def quotedWords (double : Bool) (i : Input) (done : Text) : Except Fault (Text × Input) :=
  match quotedWord double i done with
  | .error e => .error e
  | .ok (done, j) =>
    if j.nextIs (if double then '"' else '\x27') then .ok (done.reverse, j.advance)
    else
      match quotedSpaces j with
      | .error e => .error e
      | .ok (spaces, k) =>
        if _h : k.left < i.left then quotedWords double k (spaces.reverse ++ done)
        else .error .malformed
termination_by i.left

/-- A quoted scalar, from the mark that comes next to the one that closes it. -/
def takeQuoted (i : Input) : Except Fault (Text × Input) :=
  quotedWords (i.nextIs '"') i.advance []

end SubclassIndex.Yaml
