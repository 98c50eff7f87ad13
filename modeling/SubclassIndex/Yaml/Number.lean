import SubclassIndex.Decimal.Read
import SubclassIndex.Yaml.Fault

/-!
# Numbers in documents

Integers are written in base ten, after a zero in base eight, after `0b` and `0x` in the bases two
and sixteen, and with colons in base sixty. Numbers with a point may be written in base sixty too.
Underscores do not count.
-/

namespace SubclassIndex.Yaml

/-- A text without underscores. -/
def withoutBars (t : Text) : Text := t.filter fun c : CodePoint => c ≠ '_'

/-- The integer that a text writes in a base. -/
def intIn (base : Nat) (t : Text) : Except Fault Int :=
  match Text.toInt? base t with
  | some n => .ok n
  | none => .error .outOfRange

/-- The integer that a text without a sign and underscores writes. -/
def unsignedInt (t : Text) : Except Fault Int :=
  match t with
  | [] => .error .noDigits
  | c :: rest =>
    if c ≠ '0' then
      if t.contains (.ofChar ':') then
        ((t.splitOnPoint ':').mapM (intIn 10)).map fun ds => ds.foldl (fun n d => n * 60 + d) 0
      else intIn 10 t
    else
      match rest with
      | [] => .ok 0
      | letter :: digits =>
        if letter = 'b' then intIn 2 digits
        else if letter = 'x' then intIn 16 digits
        else intIn 8 t

/-- The integer that a text writes. -/
def readInt (t : Text) : Except Fault Int :=
  let t := withoutBars t
  if t.isEmpty then .error .noDigits
  else
    let (negative, t) := Decimal.takeSign t
    (unsignedInt t).map fun n => if negative then -n else n

/-- The floating-point number that a text writes. -/
def floatIn (t : Text) : Except Fault Binary64 :=
  match Decimal.read? t with
  | some x => .ok x
  | none => .error .outOfRange

/-- The number with digits in base sixty, the last one first: each is multiplied by its power of
sixty and added. -/
def baseSixtySum (sum : Binary64) (power : Nat) : List Binary64 → Except Fault Binary64
  | [] => .ok sum
  | d :: rest =>
    let factor := Binary64.ofInt power
    if !factor.isFinite then .error .overflow
    else baseSixtySum (sum.add (d.mul factor)) (power * 60) rest

/-- The number that a text without a sign and underscores writes. -/
def unsignedFloat (t : Text) : Except Fault Binary64 :=
  if t = (".inf" : Text) then .ok (.infinity false)
  else if t.contains (.ofChar ':') then
    ((t.splitOnPoint ':').mapM floatIn).bind fun ds =>
      baseSixtySum (.ofInt 0) 1 ds.reverse
  else floatIn t

/-- The number with a point that a text writes, if it is not the word for no number. -/
def readFloat (t : Text) : Except Fault (Option Binary64) :=
  let t := (withoutBars t).toLowerAscii
  if t.isEmpty then .error .noDigits
  else
    let (negative, t) := Decimal.takeSign t
    if t = (".nan" : Text) then .ok none
    else (unsignedFloat t).map fun x => some (if negative then x.neg else x)

end SubclassIndex.Yaml
