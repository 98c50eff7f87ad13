import SubclassIndex.Decimal.Digits
import SubclassIndex.Text.Blank
import SubclassIndex.Text.DecimalDigit

/-!
# Integers in texts

An integer is read leniently: blanks may surround it, a sign may precede it, single underscores may
stand between its digits, and the digits may be those of any script. In base two, eight or sixteen
the digits may follow a zero and the letter of the base.
-/

namespace SubclassIndex.Text

/-- The blanks that an integer may stand between. The information separators are not among them. -/
def isIntegerBlank (c : CodePoint) : Bool :=
  c.isBlank && !decide (0x1C ≤ c.val ∧ c.val ≤ 0x1F)

/-- The value of a digit or of a letter that continues the digits. -/
def digitValue? (c : CodePoint) : Option Nat :=
  match c.decimalValue? with
  | some n => some n
  | none =>
    if c.between 'a' 'z' then some (c.val - 87)
    else if c.between 'A' 'Z' then some (c.val - 55)
    else none

/-- The small letter that announces a base. -/
def baseLetter? (base : Nat) : Option Char :=
  match base with
  | 2 => some 'b'
  | 8 => some 'o'
  | 16 => some 'x'
  | _ => none

/-- The text without the announcement of its base and one underscore after it. -/
def dropBasePrefix (base : Nat) (t : Text) : Text :=
  match t with
  | first :: letter :: rest =>
    if first.decimalValue? = some 0 ∧ (baseLetter? base).any (fun c => letter.toLowerAscii = c) then
      match rest with
      | c :: digits => if c = '_' then digits else rest
      | [] => []
    else t
  | _ => t

/-- The digits of a text in which single underscores may stand between two digits. -/
def digits? (base : Nat) (t : Text) : Option (List Nat) :=
  go false t []
where
  /-- `afterDigit` says that an underscore may follow; `done` holds the digits backwards. -/
  go (afterDigit : Bool) : Text → List Nat → Option (List Nat)
    | [], done => if afterDigit then some done.reverse else none
    | c :: rest, done =>
      if c = '_' then if afterDigit then go false rest done else none
      else
        match digitValue? c with
        | some d => if d < base then go true rest (d :: done) else none
        | none => none

/-- The most digits that are read in a base that is no power of two. -/
def digitLimit : Nat := 4300

/-- The integer that a text writes in a base. -/
def toInt? (base : Nat) (t : Text) : Option Int :=
  let t := t.trim isIntegerBlank
  let (negative, t) :=
    match t with
    | c :: rest => if c = '-' then (true, rest) else if c = '+' then (false, rest) else (false, t)
    | [] => (false, [])
  match digits? base (dropBasePrefix base t) with
  | some ds =>
    if digitLimit < ds.length ∧ base ∉ [2, 4, 8, 16, 32] then none
    else
      let n := Digits.value base ds
      some (if negative then -n else n)
  | none => none

end SubclassIndex.Text
