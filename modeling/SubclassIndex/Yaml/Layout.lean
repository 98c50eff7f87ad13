import SubclassIndex.Yaml.BlockScalar
import SubclassIndex.Yaml.Property
import SubclassIndex.Yaml.QuotedScalar

/-!
# Layout

How the text of a document becomes its tokens. Outside flow collections the column of a token opens
and closes block collections. Whether a token begins a key is seen only at the colon after it, which
has to stand on the same line and not too far away; until then the token is a candidate, and when
the colon is found the announcement of the key is put before it. A fault in the text leaves the
tokens before it, except for a candidate and what comes after it.
-/

namespace SubclassIndex.Yaml

/-- A token that may turn out to begin a key. -/
structure KeyCandidate where
  /-- The number of flow collections around it. -/
  depth : Nat
  /-- The number of tokens before it. -/
  place : Nat
  /-- Whether nothing but a key can stand here. -/
  required : Bool
  index : Nat
  line : Nat
  column : Nat

namespace KeyCandidate

/-- The most code points between the beginning of a key and its colon. -/
def maxDistance : Nat := 1024

/-- Whether a colon at a position is still close enough. -/
def isFresh (k : KeyCandidate) (i : Input) : Bool :=
  k.line = i.line && decide (i.index - k.index ≤ maxDistance)

end KeyCandidate

/-- The tokens found so far and what decides about the next. -/
structure Layout where
  input : Input
  /-- The tokens, backwards. -/
  tokens : List Token := []
  /-- The number of tokens. -/
  count : Nat := 0
  /-- The column of the innermost block collection. -/
  indent : Int := -1
  /-- The columns of the block collections around it, the nearest first. -/
  indents : List Int := []
  /-- How many flow collections are open. -/
  depth : Nat := 0
  /-- The candidate outside all flow collections. -/
  outside : Option KeyCandidate := none
  /-- The candidates in flow collections, the innermost first: at most one in each that is open.
  Those that are too far away do not count any more. -/
  inside : List KeyCandidate := []
  /-- Whether the next token may begin a key. -/
  keyAllowed : Bool := true

namespace Layout

/-- Whether a flow collection is open. -/
def inFlow (s : Layout) : Bool := s.depth ≠ 0

/-- The candidate in the innermost flow collection, or outside all of them. -/
def candidate? (s : Layout) : Option KeyCandidate :=
  let k := if s.inFlow then s.inside.head?.filter fun k => k.depth = s.depth else s.outside
  k.filter fun k => k.isFresh s.input

/-- Drops the innermost candidate. -/
def dropCandidate (s : Layout) : Layout :=
  if s.inFlow then { s with inside := s.inside.dropWhile fun k => k.depth = s.depth }
  else { s with outside := none }

/-- Adds a candidate. -/
def addCandidate (s : Layout) (k : KeyCandidate) : Layout :=
  if s.inFlow then { s with inside := k :: s.inside } else { s with outside := some k }

/-- Adds a token. -/
def push (s : Layout) (t : Token) : Layout :=
  { s with tokens := t :: s.tokens, count := s.count + 1 }

/-- Adds a token before one that is there. -/
def pushAt (s : Layout) (place : Nat) (t : Token) : Layout :=
  let after := s.count - place
  { s with
    tokens := s.tokens.take after ++ t :: s.tokens.drop after
    count := s.count + 1 }

/-- Moves on to other input. -/
def moveTo (s : Layout) (i : Input) : Layout := { s with input := i }

/-- Allows the next token to begin a key, or not. -/
def allowKey (s : Layout) (allowed : Bool) : Layout := { s with keyAllowed := allowed }

/-- Skips spaces, comments and line breaks. After a break outside flow collections a key may
begin. -/
def skipToToken (s : Layout) (inComment : Bool) : Layout :=
  match _h : s.input.rest with
  | [] => s
  | c :: _ =>
    if isBreak c then
      skipToToken { s with input := s.input.advance, keyAllowed := s.keyAllowed || !s.inFlow } false
    else if inComment || c = '#' then skipToToken { s with input := s.input.advance } true
    else if c = ' ' then skipToToken { s with input := s.input.advance } false
    else s
termination_by s.input.left
decreasing_by all_goals exact Input.left_advance_lt _h

/-- Gives up the candidate outside flow collections if it is too far away. A key must not be
required there. -/
def refresh (s : Layout) : Except Fault Layout :=
  match s.outside with
  | some k =>
    if k.isFresh s.input then .ok s
    else if k.required then .error .malformed
    else .ok { s with outside := none }
  | none => .ok s

/-- Gives up the innermost candidate. A key must not be required there. -/
def giveUp (s : Layout) : Except Fault Layout :=
  if !s.inFlow && s.outside.any KeyCandidate.required then .error .malformed
  else .ok s.dropCandidate

/-- Makes the next token a candidate if a key is allowed. -/
def saveCandidate (s : Layout) : Except Fault Layout :=
  if !s.keyAllowed then .ok s
  else
    let i := s.input
    let required := !s.inFlow && s.indent = i.column
    s.giveUp.map fun s =>
      s.addCandidate ⟨s.depth, s.count, required, i.index, i.line, i.column⟩

/-- Closes block collections, of which `indents` are those around the innermost one. -/
def closeBlocks (s : Layout) (column : Int) : List Int → Layout
  | [] => s
  | outer :: rest =>
    if s.indent ≤ column then s
    else closeBlocks { s.push .blockEnd with indent := outer, indents := rest } column rest

/-- Closes the block collections that stand further to the right than a column. -/
def unwind (s : Layout) (column : Int) : Layout :=
  if s.inFlow then s else s.closeBlocks column s.indents

/-- Opens a block collection at a column, unless one is open that stands there or further to the
right, and says whether it did. -/
def openBlock (s : Layout) (column : Nat) : Layout × Bool :=
  if s.indent < column then
    ({ s with indent := column, indents := s.indent :: s.indents }, true)
  else (s, false)

/-- Prepares for an entry of a block collection, which `start` begins. -/
def enterBlock (s : Layout) (start : Token) : Except Fault Layout :=
  if s.inFlow then .ok s
  else if !s.keyAllowed then .error .malformed
  else
    match s.openBlock s.input.column with
    | (s, true) => .ok (s.push start)
    | (s, false) => .ok s

/-- Adds a token after which the text goes on at other input. -/
def give (s : Layout) (t : Token) (i : Input) : Layout := (s.push t).moveTo i

/-- A line or mark that stands outside all collections. -/
def leaveBlocks (s : Layout) : Except Fault Layout :=
  ((s.unwind (-1)).giveUp).map fun s => s.allowKey false

/-- A token that may begin a key. -/
def takeCandidate (s : Layout) : Except Fault Layout :=
  s.saveCandidate.map fun s => s.allowKey false

/-- The beginning of a flow collection. -/
def openFlow (s : Layout) (t : Token) : Except Fault Layout :=
  s.saveCandidate.map fun s =>
    { s.give t s.input.advance with depth := s.depth + 1, keyAllowed := true }

/-- The end of a flow collection. -/
def closeFlow (s : Layout) (t : Token) : Except Fault Layout := do
  let s ← s.giveUp
  if !s.inFlow then .error .malformed
  else .ok { s.give t s.input.advance with depth := s.depth - 1, keyAllowed := false }

/-- The comma in a flow collection. -/
def takeComma (s : Layout) : Except Fault Layout :=
  s.giveUp.map fun s => (s.allowKey true).give .flowEntry s.input.advance

/-- The hyphen before an item. -/
def takeHyphen (s : Layout) : Except Fault Layout := do
  let s ← s.enterBlock .blockSequenceStart
  let s ← s.giveUp
  .ok ((s.allowKey true).give .blockEntry s.input.advance)

/-- The question mark before a key. -/
def takeQuestionMark (s : Layout) : Except Fault Layout := do
  let s ← s.enterBlock .blockMappingStart
  let s ← s.giveUp
  .ok ((s.allowKey !s.inFlow).give .key s.input.advance)

/-- The colon before a value. If there is a candidate, it begins the key. -/
def takeColon (s : Layout) : Except Fault Layout :=
  match s.candidate? with
  | some k =>
    let s := s.dropCandidate.pushAt k.place .key
    let (s, opened) := if s.inFlow then (s, false) else s.openBlock k.column
    let s := if opened then s.pushAt k.place .blockMappingStart else s
    .ok ((s.allowKey false).give .value s.input.advance)
  | none => do
    let s ← s.enterBlock .blockMappingStart
    .ok ((s.allowKey !s.inFlow).give .value s.input.advance)

/-- A token with a text of its own after an indicator. -/
def takeText (s : Layout) (read : Input → Except Fault (Token × Input)) : Except Fault Layout := do
  let s ← s.takeCandidate
  let (t, i) ← read s.input
  .ok (s.give t i)

/-- A plain scalar. A key may begin after it if it was followed by a line break. -/
def takePlainScalar (s : Layout) : Except Fault Layout := do
  let s ← s.takeCandidate
  let (t, crossed, i) := takePlain s.inFlow (s.indent + 1) s.input
  .ok ((s.allowKey crossed).give (.scalar t true) i)

/-- A block scalar. -/
def takeBlockScalar (s : Layout) (folded : Bool) : Except Fault Layout := do
  let s ← s.giveUp
  let (t, i) ← takeBlock folded s.indent s.input.advance
  .ok ((s.allowKey true).give (.scalar t false) i)

/-- The directive or mark that comes next at the beginning of a line. -/
def takeLineStart? (s : Layout) : Option (Except Fault Layout) :=
  let i := s.input
  if i.column ≠ 0 then none
  else if i.nextIs '%' then some do
    let s ← s.leaveBlocks
    let (d, i) ← takeDirective i.advance
    .ok (s.give (.directive d) i)
  else if i.marksWith Input.startMark then
    some (s.leaveBlocks.map fun s => s.give .documentStart (i.advanceBy 3))
  else if i.marksWith Input.endMark then
    some (s.leaveBlocks.map fun s => s.give .documentEnd (i.advanceBy 3))
  else none

/-- The token with an indicator that comes next. -/
def takeIndicated (s : Layout) (c : CodePoint) : Except Fault Layout :=
  let i := s.input
  let wordEnds := endsWord i.rest[1]?
  if c = '[' then s.openFlow .flowSequenceStart
  else if c = '\x7b' then s.openFlow .flowMappingStart
  else if c = ']' then s.closeFlow .flowSequenceEnd
  else if c = '\x7d' then s.closeFlow .flowMappingEnd
  else if c = ',' then s.takeComma
  else if c = '-' ∧ wordEnds then s.takeHyphen
  else if c = '?' ∧ (s.inFlow ∨ wordEnds) then s.takeQuestionMark
  else if c = ':' ∧ (s.inFlow ∨ wordEnds) then s.takeColon
  else if c = '*' then
    s.takeText fun i => (takeAnchor i.advance).map fun (name, i) => (.reference name, i)
  else if c = '&' then
    s.takeText fun i => (takeAnchor i.advance).map fun (name, i) => (.anchor name, i)
  else if c = '!' then s.takeText fun i => (takeTag i).map fun (t, i) => (.tag t, i)
  else if (c = '|' ∨ c = '>') ∧ !s.inFlow then s.takeBlockScalar (c = '>')
  else if c = '\x27' ∨ c = '"' then
    s.takeText fun i => (takeQuoted i).map fun (t, i) => (.scalar t false, i)
  else if startsPlain s.inFlow i then s.takePlainScalar
  else .error .malformed

/-- The places of the tokens that may still turn out to begin a key. -/
def openPlaces (s : Layout) : List Nat :=
  ((s.outside.toList ++ s.inside).filter fun k => k.isFresh s.input).map KeyCandidate.place

/-- The tokens that can be told before the text goes on: those before the first that may still turn
out to begin a key. -/
def settled (s : Layout) : List Token :=
  (s.tokens.drop (s.count - s.openPlaces.foldl min s.count)).reverse

/-- The tokens of a text that goes on with a fault. -/
def breakOff (s : Layout) (f : Fault) : List Token := s.settled ++ [.broken f]

/-- The tokens up to the end of the text or to its first fault. -/
def takeAll (s : Layout) : List Token :=
  match (s.skipToToken false).refresh with
  | .error f => s.breakOff f
  | .ok s' =>
    let s' := s'.unwind s'.input.column
    match s'.input.next? with
    | none =>
      match (s'.unwind (-1)).giveUp with
      | .error f => s.breakOff f
      | .ok s' => s'.tokens.reverse
    | some c =>
      match (s'.takeLineStart?).getD (s'.takeIndicated c) with
      | .error f => s.breakOff f
      | .ok next =>
        if _h : next.input.left < s.input.left then next.takeAll
        else s.breakOff .malformed
termination_by s.input.left

end Layout

/-- The tokens of a document. -/
def tokens (t : Text) : Array Token :=
  if !t.all isAllowed then #[.broken .malformed]
  else
    let t := if t.head? = some byteOrderMark then t.drop 1 else t
    (Layout.takeAll { input := { rest := t } }).toArray

end SubclassIndex.Yaml
