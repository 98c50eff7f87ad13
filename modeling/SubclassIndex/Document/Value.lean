import SubclassIndex.Decimal.Binary64
import SubclassIndex.Document.Calendar

/-!
# Document values

What a settings document can hold. Settings use texts, lists and a few others; the rest occurs only
in complaints and where any value is spelled as a text. Keys of mappings and members of sets have no
parts.
-/

namespace SubclassIndex.Document

/-- A value without parts. -/
inductive Scalar
  | null
  | bool (b : Bool)
  | int (n : Int)
  | float (x : Binary64)
  /-- What the word for no number stands for. It equals itself, unlike a number that is computed and
  is none. -/
  | noNumber
  | text (t : Text)
  | bytes (b : Bytes)
  | date (d : Date)
  | time (t : Timestamp)
  deriving DecidableEq

namespace Scalar

/-- The name of a scalar's type. -/
def typeName : Scalar → Text
  | null => "NoneType"
  | bool _ => "bool"
  | int _ => "int"
  | float _ | noNumber => "float"
  | text _ => "str"
  | bytes _ => "bytes"
  | date _ => "date"
  | time _ => "datetime"

/-- The text that a scalar is. -/
def asText? : Scalar → Option Text
  | text t => some t
  | _ => none

/-- Whether a scalar counts as true: whether it is not null, false, zero or empty. -/
def isTruthy : Scalar → Bool
  | null => false
  | bool b => b
  | int n => n ≠ 0
  | float x => x.isNaN || !x.isFinite || x.significand ≠ 0
  | text t => !t.isEmpty
  | bytes b => !b.isEmpty
  | noNumber | date _ | time _ => true

/-- The integer that a scalar equals, if there is one: truth values count as one and zero. -/
def asInt? : Scalar → Option Int
  | bool b => some b.toNat
  | int n => some n
  | float x => x.toInt?
  | _ => none

/-- Whether two keys are the same. Numbers are compared by value and times by instant. -/
def sameKey (a b : Scalar) : Bool :=
  match a.asInt?, b.asInt? with
  | some m, some n => m = n
  | some _, none | none, some _ => false
  | none, none =>
    match a, b with
    | null, null | noNumber, noNumber => true
    | float x, float y => x = y && !x.isNaN
    | text s, text t => s = t
    | bytes x, bytes y => x = y
    | date d, date e => d = e
    | time s, time t => s.offset.isSome = t.offset.isSome && s.instant = t.instant
    | _, _ => false

/-- The members of a set as they are listed. They have no order of their own: natural numbers are
listed in ascending order, and all else is listed as it was written. -/
def memberOrder (members : List Scalar) : List Scalar :=
  if members.all fun s => s.asInt?.any fun n => 0 ≤ n then
    members.mergeSort fun a b => a.asInt?.getD 0 ≤ b.asInt?.getD 0
  else members

end Scalar

/-- A value of a document. -/
inductive Value
  | scalar (s : Scalar)
  | list (items : List Value)
  /-- An entry of an ordered mapping that keeps repeated keys. -/
  | pair (first second : Value)
  | set (members : List Scalar)
  | map (entries : List (Scalar × Value))
  /-- A list that contains itself, at the place where it does. -/
  | listLoop
  /-- A pair that contains itself, at the place where it does. -/
  | pairLoop
  /-- A mapping that contains itself, at the place where it does. -/
  | mapLoop
  deriving Inhabited

namespace Value

/-- The absent value. -/
@[match_pattern] def null : Value := scalar .null

/-- A text as a value. -/
@[match_pattern] def text (t : Text) : Value := scalar (.text t)

/-- The name of a value's type. -/
def typeName : Value → Text
  | scalar s => s.typeName
  | list _ | listLoop => "list"
  | pair _ _ | pairLoop => "tuple"
  | set _ => "set"
  | map _ | mapLoop => "dict"

/-- The text that a value is. -/
def asText? : Value → Option Text
  | scalar s => s.asText?
  | _ => none

end Value

end SubclassIndex.Document
