import SubclassIndex.Decimal.Written
import SubclassIndex.Document.Value
import SubclassIndex.Text.Quoted

/-!
# Spelling of values

Where a setting should be a text and is something else, the value is spelled out; complaints spell
values too. Inside a collection and in complaints texts are quoted and dates say what they are. An
integer of too many digits has no spelling.
-/

namespace SubclassIndex.Document

/-- The most digits of an integer that is spelled. -/
def spelledDigits : Nat := 4300

/-- An integer in decimal, unless it is too long. -/
def spellInt (n : Int) : Option Text :=
  if Nat.pow 10 spelledDigits ≤ n.natAbs then none else some (Text.ofInt n)

/-- A byte between two marks. -/
def quotedByte (mark : CodePoint) (b : UInt8) : Text :=
  let c : CodePoint := ⟨b.toNat, by have := b.toNat_lt; omega⟩
  if c = mark ∨ c = '\\' then [.ofChar '\\', c]
  else if c = '\n' then "\\n"
  else if c = '\r' then "\\r"
  else if c = '\t' then "\\t"
  else if c.between ' ' '~' then [c]
  else "\\x" ++ Text.ofHex 2 b.toNat

/-- Bytes between two marks, after the letter that tells them from a text. -/
def quotedBytes (bytes : Bytes) : Text :=
  let mark : CodePoint :=
    if bytes.contains 0x27 && !bytes.contains 0x22 then .ofChar '"' else .ofChar '\x27'
  .ofChar 'b' :: mark :: bytes.flatMap (quotedByte mark) ++ [mark]

/-- Numbers separated by commas in parentheses after a name. -/
def call (name : Text) (arguments : List Text) : Text :=
  name ++ "(" ++ Text.join ", " arguments ++ ")"

/-- The offset of a clock as a description. -/
def describeOffset (o : Int) : Text :=
  if o = 0 then "datetime.timezone.utc"
  else
    let seconds := (o % Timestamp.minutesPerDay * 60).toNat
    let days : List Text := if o < 0 then ["days=-1"] else []
    let delta := call "datetime.timedelta" (days ++ ["seconds=" ++ Text.ofNat seconds])
    call "datetime.timezone" [delta]

/-- A date as a description. -/
def describeDate (d : Date) : Text :=
  call "datetime.date" ([d.year, d.month, d.day].map Text.ofNat)

/-- A time as a description. Seconds are left out where they and the microseconds are zero. -/
def describeTime (t : Timestamp) : Text :=
  let parts := [t.date.year, t.date.month, t.date.day, t.hour, t.minute] ++
    (if t.microsecond = 0 then if t.second = 0 then [] else [t.second]
      else [t.second, t.microsecond])
  call "datetime.datetime" (parts.map Text.ofNat ++
    (t.offset.map fun o => "tzinfo=" ++ describeOffset o).toList)

/-- The description of a scalar. -/
def Scalar.describe : Scalar → Option Text
  | null => some "None"
  | bool b => some (if b then "True" else "False")
  | int n => spellInt n
  | float x => some (Decimal.spell Decimal.plainFormat x)
  | noNumber => some (Decimal.spell Decimal.plainFormat .nan)
  | text t => some t.quoted
  | bytes b => some (quotedBytes b)
  | date d => some (describeDate d)
  | time t => some (describeTime t)

namespace Value

mutual

/-- The description of a value. -/
def describe : Value → Option Text
  | scalar s => s.describe
  | list items => (describeAll items).map fun ts => "[" ++ Text.join ", " ts ++ "]"
  | pair a b => do
    let s ← a.describe
    let t ← b.describe
    some ("(" ++ s ++ ", " ++ t ++ ")")
  | set members =>
    (members.mapM Scalar.describe).map fun ts =>
      if ts.isEmpty then "set()" else "\x7b" ++ Text.join ", " ts ++ "\x7d"
  | map entries =>
    (describeEntries entries).map fun ts => "\x7b" ++ Text.join ", " ts ++ "\x7d"
  | listLoop => some "[...]"
  | pairLoop => some "(...)"
  | mapLoop => some "\x7b...\x7d"

/-- The descriptions of several values. -/
def describeAll : List Value → Option (List Text)
  | [] => some []
  | v :: rest => do
    let t ← v.describe
    let ts ← describeAll rest
    some (t :: ts)

/-- The descriptions of the entries of a mapping. -/
def describeEntries : List (Scalar × Value) → Option (List Text)
  | [] => some []
  | (k, v) :: rest => do
    let s ← k.describe
    let t ← v.describe
    let ts ← describeEntries rest
    some ((s ++ ": " ++ t) :: ts)

end

/-- The value as a text: a text is itself, dates and times are written plainly, and all else is
described. -/
def spell : Value → Option Text
  | scalar (.text t) => some t
  | scalar (.date d) => some d.text
  | scalar (.time t) => some t.text
  | v => v.describe

end Value

end SubclassIndex.Document
