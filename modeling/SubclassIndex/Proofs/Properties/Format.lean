import SubclassIndex.Properties.Reader
import SubclassIndex.Text.Surrogates

/-!
# The format of properties text

What properties text means by the rules of its format, read one code point after another.

* A natural line ends at a line feed, a carriage return or the two together. Blank lines and
  comments are passed over; an odd number of backslashes at the end of a line joins the next one to
  it, without its leading white space. Where nothing is kept of a line that goes on, the next line
  may as well be blank or a comment (`Format.lines`).
* In a logical line a backslash and what follows it are one sign. Four hexadecimal digits after the
  letter u name a sixteen-bit unit, and where they are missing the text has no meaning
  (`Format.signs?`).
* The key is what stands before the first unescaped equals sign, colon or white space
  (`Format.entry?`).
* Of several entries with a key the last one counts (`Format.value?`). Two units that are the halves
  of a code point are that code point (`Format.joined`).

Nothing is said here about how the reader of this library goes about it. Two rules for lines are
left open (`Format.Conventions`), so that a reading by other rules can be compared with this one.
-/

namespace SubclassIndex.Properties.Format

/-! ## Logical lines -/

/-- How logical lines are made. -/
structure Conventions where
  /-- Whether a natural line ends at a code point. -/
  isEnd : CodePoint → Bool
  /-- Whether a logical line of which nothing is kept begins again where it goes on. -/
  beginsAgain : Bool

/-- Whether a natural line ends at a code point. -/
def isTerminator (c : CodePoint) : Bool := c = '\n' || c = '\r'

/-- The conventions of the format. -/
def conventions : Conventions := ⟨isTerminator, true⟩

/-- Where a reader stands in a text. What it has read of a logical line is kept backwards. -/
inductive Position
  /-- Before the first sign of a logical line. -/
  | between
  /-- In a comment. -/
  | comment
  /-- In a logical line. -/
  | within (line : Text)
  /-- In a logical line, after a backslash that no backslash escapes. -/
  | escaping (line : Text)
  /-- Where a logical line goes on in the next natural line. A line feed after a carriage return
  still belongs to the end of the line before. -/
  | resumed (afterReturn : Bool) (line : Text)

namespace Position

/-- The logical line that ends where the text ends. One that would go on there may be empty. -/
def line? : Position → Option Text
  | between | comment => none
  | within line | escaping line | resumed _ line => some line.reverse

/-- In a logical line, after one more code point. -/
def enter (line : Text) (c : CodePoint) : Position :=
  if c = '\\' then escaping line else within (c :: line)

/-- Where a logical line may begin, after one more code point. -/
def start (conv : Conventions) (c : CodePoint) : Position :=
  if conv.isEnd c || isSpace c then between
  else if isCommentSign c then comment
  else enter [] c

/-- The position after one more code point, and the logical line that it ends, if any. -/
def next (conv : Conventions) (c : CodePoint) : Position → Position × Option Text
  | between => (start conv c, none)
  | comment => (if conv.isEnd c then between else comment, none)
  | within line => if conv.isEnd c then (between, some line.reverse) else (enter line c, none)
  | escaping line =>
    (if conv.isEnd c then resumed (c = '\r') line else within (c :: '\\' :: line), none)
  | resumed afterReturn line =>
    if conv.beginsAgain && line.isEmpty then (start conv c, none)
    else if afterReturn && c = '\n' then (resumed false line, none)
    else if conv.isEnd c then (between, some line.reverse)
    else if isSpace c then (resumed false line, none)
    else (enter line c, none)

end Position

/-- The logical lines from a position on. -/
def linesFrom (conv : Conventions) : Position → Text → List Text
  | p, [] => p.line?.toList
  | p, c :: rest =>
    let (p', done) := p.next conv c
    done.toList ++ linesFrom conv p' rest

/-- The logical lines of a text. -/
def lines (conv : Conventions) (t : Text) : List Text := linesFrom conv .between t

/-! ## Signs -/

/-- A code point of a key or of a value, and whether a backslash was needed to write it. -/
structure Sign where
  point : CodePoint
  escaped : Bool
  deriving DecidableEq

namespace Sign

def isSpace (s : Sign) : Bool := !s.escaped && Properties.isSpace s.point

def isSeparator (s : Sign) : Bool := !s.escaped && Properties.isSeparator s.point

/-- Whether a key ends before a sign. -/
def endsKey (s : Sign) : Bool := s.isSeparator || s.isSpace

end Sign

/-- The value of a digit of base sixteen. -/
def hexValue? (c : CodePoint) : Option Nat :=
  if c.between '0' '9' then some (c.val - 48)
  else if c.between 'a' 'f' then some (c.val - 87)
  else if c.between 'A' 'F' then some (c.val - 55)
  else none

/-- The unit that four digits name. -/
def unit? (h₁ h₂ h₃ h₄ : CodePoint) : Option CodePoint :=
  match hexValue? h₁, hexValue? h₂, hexValue? h₃, hexValue? h₄ with
  | some v₁, some v₂, some v₃, some v₄ => CodePoint.ofNat? (((v₁ * 16 + v₂) * 16 + v₃) * 16 + v₄)
  | _, _, _, _ => none

/-- What a code point other than the letter u means after a backslash. -/
def letterMeaning (c : CodePoint) : CodePoint :=
  if c = 't' then '\t'
  else if c = 'n' then '\n'
  else if c = 'r' then '\r'
  else if c = 'f' then '\x0c'
  else c

/-- The signs of a logical line, unless a unit lacks one of its digits. No logical line ends in a
backslash that escapes nothing; here it counts as itself. -/
def signs? : Text → Option (List Sign)
  | [] => some []
  | [c] => some [⟨c, false⟩]
  | c :: d :: rest =>
    if c = '\\' then
      if d = 'u' then
        match rest with
        | h₁ :: h₂ :: h₃ :: h₄ :: rest' =>
          match unit? h₁ h₂ h₃ h₄, signs? rest' with
          | some unit, some signs => some (⟨unit, true⟩ :: signs)
          | _, _ => none
        | _ => none
      else (signs? rest).map (⟨letterMeaning d, true⟩ :: ·)
    else (signs? (d :: rest)).map (⟨c, false⟩ :: ·)

/-! ## Entries -/

/-- The signs of a value among those that follow the key. -/
def valueSigns (after : List Sign) : List Sign :=
  match after.dropWhile Sign.isSpace with
  | [] => []
  | s :: rest => if s.isSeparator then rest.dropWhile Sign.isSpace else s :: rest

/-- The key and the value of a logical line. -/
def entry? (line : Text) : Option (Text × Text) :=
  (signs? line).map fun signs =>
    ((signs.takeWhile fun s => !s.endsKey).map Sign.point,
      (valueSigns (signs.dropWhile fun s => !s.endsKey)).map Sign.point)

/-- The entries of a text in their order, keys and values in units. There are none where a unit
lacks one of its digits. -/
def load? (conv : Conventions) (t : Text) : Option (List (Text × Text)) :=
  (lines conv t).mapM entry?

/-- The entries in code points. -/
def joined (es : List (Text × Text)) : List (Text × Text) :=
  es.map fun e => (e.1.joinPairs, e.2.joinPairs)

/-- The value of a key, which is that of the last entry with this key. -/
def value? (es : List (Text × Text)) (key : Text) : Option Text :=
  (es.reverse.find? fun e => e.1 = key).map Prod.snd

end SubclassIndex.Properties.Format
