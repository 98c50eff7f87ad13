import SubclassIndex.Text.Basic

/-!
# Base 64

Bytes written in groups of four characters for three bytes. Characters that are no digits do not
count. Equals signs fill the last group up; what comes after them does not count either.
-/

namespace SubclassIndex.Base64

/-- The value of a digit. -/
def digitValue? (c : CodePoint) : Option Nat :=
  if c.between 'A' 'Z' then some (c.val - 65)
  else if c.between 'a' 'z' then some (c.val - 71)
  else if c.isDigit then some (c.val + 4)
  else if c = '+' then some 62
  else if c = '/' then some 63
  else none

/-- The bytes of a group of two, three or four digits. -/
def bytesOf (digits : List Nat) : Bytes :=
  let n := (digits ++ [0, 0, 0]).take 4 |>.foldl (fun n d => n * 64 + d) 0
  ([n / 65536, n / 256 % 256, n % 256].map Nat.toUInt8).take (digits.length - 1)

/-- Reads on with the digits of the current group, the number of equals signs since the last digit,
and the bytes read so far, backwards. -/
def decodeFrom (group : List Nat) (padding : Nat) (done : Bytes) : Text → Option Bytes
  | [] => if group.isEmpty then some done.reverse else none
  | c :: rest =>
    if c = '=' then
      if 2 ≤ group.length ∧ 4 ≤ group.length + padding + 1 then
        some ((bytesOf group).reverse ++ done).reverse
      else decodeFrom group (if 2 ≤ group.length then padding + 1 else padding) done rest
    else
      match digitValue? c with
      | none => decodeFrom group padding done rest
      | some d =>
        if group.length = 3 then decodeFrom [] 0 ((bytesOf (group ++ [d])).reverse ++ done) rest
        else decodeFrom (group ++ [d]) 0 done rest

/-- The bytes that a text writes, if its last group is filled up. Only ASCII is allowed. -/
def decode? (t : Text) : Option Bytes :=
  if t.all fun c => decide (c.val < 0x80) then decodeFrom [] 0 [] t else none

example : decode? "aGVsbG8=" = some [104, 101, 108, 108, 111] := by decide

end SubclassIndex.Base64
