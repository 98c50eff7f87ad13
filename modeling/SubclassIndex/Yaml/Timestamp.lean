import SubclassIndex.Document.Calendar
import SubclassIndex.Text.Integer

/-!
# Dates in documents

A date is written with hyphens, and a time may follow after a letter or blanks. The seconds may have
a fraction, of which six digits count, and the offset of the clock may come last.
-/

namespace SubclassIndex.Yaml

open Document

/-- A date with what may follow it, as it is written: nothing has been checked yet. -/
inductive WrittenTime
  | date (d : Date)
  | time (t : Timestamp)

/-- From `least` to `most` digits that a text begins with: their number and the rest. -/
def digitsBetween (least most : Nat) (t : Text) : Option (Nat × Text) :=
  let ds := (t.take most).takeWhile CodePoint.isDigit
  if ds.length < least then none
  else some (ds.foldl (fun n c => n * 10 + (c.val - 48)) 0, t.drop ds.length)

/-- The rest of a text that begins with a code point. -/
def after (c : CodePoint) : Text → Option Text
  | d :: rest => if d = c then some rest else none
  | [] => none

/-- A fraction of a second in microseconds, and the rest of the text. -/
def fractionOf (t : Text) : Nat × Text :=
  match after '.' t with
  | none => (0, t)
  | some u =>
    let ds := u.takeWhile CodePoint.isDigit
    let six := (ds ++ List.replicate 6 (CodePoint.ofChar '0')).take 6
    (six.foldl (fun n c => n * 10 + (c.val - 48)) 0, u.drop ds.length)

/-- The offset that a whole text writes, perhaps after blanks. -/
def offsetOf (t : Text) : Option (Option Int) :=
  match t, t.dropWhile fun c : CodePoint => c = ' ' || c = '\t' with
  | [], _ => some none
  | _, [] => none
  | _, c :: rest =>
    if c = 'Z' then if rest.isEmpty then some (some 0) else none
    else if c = '+' ∨ c = '-' then do
      let (hours, rest) ← digitsBetween 1 2 rest
      let (minutes, rest) ←
        if rest.isEmpty then some (0, rest) else (after ':' rest).bind (digitsBetween 2 2)
      let offset : Int := hours * 60 + minutes
      if rest.isEmpty then some (some (if c = '-' then -offset else offset)) else none
    else none

/-- The time of day that a text goes on with after a date. -/
def timeOf (d : Date) (t : Text) : Option Timestamp := do
  let (hour, t) ← digitsBetween 1 2 t
  let t ← after ':' t
  let (minute, t) ← digitsBetween 2 2 t
  let t ← after ':' t
  let (second, t) ← digitsBetween 2 2 t
  let (microsecond, t) := fractionOf t
  let offset ← offsetOf t
  some { date := d, hour, minute, second, microsecond, offset }

/-- What stands between a date and a time: a letter or blanks. -/
def afterSeparator (t : Text) : Option Text :=
  let blanks := t.takeWhile fun c : CodePoint => c = ' ' || c = '\t'
  if !blanks.isEmpty then some (t.drop blanks.length)
  else (after 'T' t).or (after 't' t)

/-- The date or time that a text writes. -/
def writtenTime? (t : Text) : Option WrittenTime := do
  let (year, t) ← digitsBetween 4 4 t
  let t ← after '-' t
  let (month, t) ← digitsBetween 1 2 t
  let t ← after '-' t
  let (day, t) ← digitsBetween 1 2 t
  let d : Date := ⟨year, month, day⟩
  if t.isEmpty then some (.date d)
  else
    let t ← afterSeparator t
    (timeOf d t).map .time

/-- The length of a date whose month and day both have two digits. -/
def fullDateLength : Nat := 10

/-- Whether a plain text is taken for a date or time. A date alone has to be written in full. -/
def isTimestamp (t : Text) : Bool :=
  match writtenTime? t with
  | some (.date _) => t.length = fullDateLength
  | some (.time _) => true
  | none => false

end SubclassIndex.Yaml
