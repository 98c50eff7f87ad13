import SubclassIndex.Text.Integer
import SubclassIndex.Text.Utf8
import SubclassIndex.Yaml.Fault
import SubclassIndex.Yaml.Input
import SubclassIndex.Yaml.Token

/-!
# Anchors, tags and directives

A node may have an anchor, by which aliases refer to it, and a tag, which says what it means. A tag
is written in full between angle brackets or as a handle with a suffix. Directives before a document
say what its handles stand for.
-/

namespace SubclassIndex.Yaml

/-- A name of word points that comes next, and the input after it. -/
def takeName (i : Input) : Except Fault (Text × Input) :=
  let (name, j) := i.takeWhile CodePoint.isWordPoint
  if name.isEmpty then .error .malformed else .ok (name, j)

/-- Whether a name of an anchor ends before what comes next. -/
def endsAnchor (next : Option CodePoint) : Bool :=
  endsWord next || next.any fun c => ("?:,]\x7d%@\x60" : Text).contains c

/-- The name of an anchor or of an alias, and the input after it. The indicator has been read. -/
def takeAnchor (i : Input) : Except Fault (Text × Input) := do
  let (name, i) ← takeName i
  if endsAnchor i.next? then .ok (name, i) else .error .malformed

/-- The code points that a tag is written in. -/
def isTagPoint (c : CodePoint) : Bool :=
  c.isWordPoint || ("-;/?:@&=+$,_.!~*\x27()[]%" : Text).contains c

/-- The bytes that come next as percent signs with two digits each, added backwards to `done`. -/
def percentBytes (i : Input) (done : Bytes) : Except Fault (Bytes × Input) :=
  match _h : i.rest with
  | c :: rest =>
    if c ≠ '%' then .ok (done.reverse, i)
    else
      match rest with
      | a :: b :: _ =>
        if a.isHexDigit ∧ b.isHexDigit then
          let digit := fun c => (Text.digitValue? c).getD 0
          percentBytes (i.advanceBy 3) ((digit a * 16 + digit b).toUInt8 :: done)
        else .error .malformed
      | _ => .error .malformed
  | [] => .ok (done.reverse, i)
termination_by i.left
decreasing_by exact Input.left_advanceBy_lt 2 _h

/-- The text of a tag, added backwards to `done`. Bytes that are written by numbers are UTF-8. -/
def tagText (i : Input) (done : Text) : Except Fault (Text × Input) :=
  match _h : i.rest with
  | [] => .ok (done.reverse, i)
  | c :: _ =>
    if c = '%' then
      match percentBytes i [] with
      | .error e => .error e
      | .ok (bytes, j) =>
        match Utf8.decode? .scalars bytes with
        | none => .error .malformed
        | some t =>
          if _h' : j.left < i.left then tagText j (t.reverse ++ done)
          else .error .malformed
    else if isTagPoint c then tagText i.advance (c :: done)
    else .ok (done.reverse, i)
termination_by i.left
decreasing_by
  · exact _h'
  · exact Input.left_advance_lt _h

/-- The text of a tag, which must not be empty, and the input after it. -/
def takeTagText (i : Input) : Except Fault (Text × Input) :=
  if i.next?.any isTagPoint then tagText i [] else .error .malformed

/-- A handle with its two marks, or a single mark that a space follows, and the input after it. -/
def takeHandle (i : Input) : Except Fault (Text × Input) :=
  if !i.nextIs '!' then .error .malformed
  else
    let (name, j) := i.advance.takeWhile CodePoint.isWordPoint
    if j.nextIs '!' then .ok ("!" ++ name ++ "!", j.advance)
    else if name.isEmpty ∧ j.nextIs ' ' then .ok ("!", j)
    else .error .malformed

/-- A tag that begins with the mark that comes next. -/
def takeTagSpelling (i : Input) : Except Fault (TagSpelling × Input) :=
  let j := i.advance
  if j.nextIs '<' then do
    let (suffix, k) ← takeTagText j.advance
    if k.nextIs '>' then .ok (⟨none, suffix⟩, k.advance) else .error .malformed
  else if endsWord j.next? then .ok (⟨none, "!"⟩, j)
  else if (j.rest.takeWhile fun c : CodePoint => !endsField (some c)).contains (.ofChar '!') then do
    let (handle, k) ← takeHandle i
    let (suffix, l) ← takeTagText k
    .ok (⟨some handle, suffix⟩, l)
  else (takeTagText j).map fun (suffix, k) => (⟨some "!", suffix⟩, k)

/-- A tag and the input after it. -/
def takeTag (i : Input) : Except Fault (TagSpelling × Input) := do
  let (t, i) ← takeTagSpelling i
  if endsField i.next? then .ok (t, i) else .error .malformed

/-- A number in a directive and the input after it. -/
def takeVersionNumber (i : Input) : Except Fault (Nat × Input) :=
  let (digits, j) := i.takeWhile CodePoint.isDigit
  if digits.isEmpty then .error .malformed
  else
    match Text.toInt? 10 digits with
    | some n => .ok (n.toNat, j)
    | none => .error .outOfRange

/-- What a directive of a given name says, and the input after it. -/
def takeDirectiveValue (name : Text) (i : Input) : Except Fault (Directive × Input) :=
  if name = ("YAML" : Text) then do
    let (major, i) ← takeVersionNumber i.skipSpaces
    if !i.nextIs '.' then .error .malformed
    else
      let (minor, i) ← takeVersionNumber i.advance
      if endsField i.next? then .ok (.version major minor, i) else .error .malformed
  else if name = ("TAG" : Text) then do
    let (handle, i) ← takeHandle i.skipSpaces
    if !i.nextIs ' ' then .error .malformed
    else
      let (start, i) ← takeTagText i.skipSpaces
      if endsField i.next? then .ok (.handle handle start, i) else .error .malformed
  else .ok (.other, i.takeLine.2)

/-- A directive and the input at the next line. The mark that begins it has been read. -/
def takeDirective (i : Input) : Except Fault (Directive × Input) := do
  let (name, i) ← takeName i
  if !endsField i.next? then .error .malformed
  else
    let (d, i) ← takeDirectiveValue name i
    let i := i.skipSpaces.skipComment
    if endsLine i.next? then .ok (d, i.takeBreak.2) else .error .malformed

end SubclassIndex.Yaml
