import SubclassIndex.Decimal.Shortest

/-!
# Written floating-point numbers

The format in which floating-point numbers are spelled: positional while the point stands at most
three zeros before the digits or within the first sixteen, with an exponent otherwise.
-/

namespace SubclassIndex.Decimal

/-- How a decimal is spelled. -/
structure Format where
  /-- The least place of the point that is still positional, counted from the first digit. -/
  leastPoint : Int
  /-- The greatest such place. -/
  greatestPoint : Int
  /-- How many digits an exponent has at least. -/
  exponentWidth : Nat

/-- Numbers from a ten-thousandth up to ten to the sixteenth are positional, and exponents have two
digits. -/
def plainFormat : Format := ⟨-3, 16, 2⟩

/-- Digits with a point before the given place, and a zero on each side that has no digit. -/
def positional (ds : List Char) (point : Int) : List Char :=
  match point with
  | .ofNat n =>
    let ds := ds ++ List.replicate (n - ds.length) '0'
    (if n = 0 then ['0'] else ds.take n) ++ '.' ::
      (if ds.length ≤ n then ['0'] else ds.drop n)
  | .negSucc n => '0' :: '.' :: List.replicate (n + 1) '0' ++ ds

/-- Digits with the point after the first one, and an exponent with its sign. -/
def withExponent (format : Format) (ds : List Char) (point : Int) : List Char :=
  let e := point - 1
  let digits := Nat.toDigits 10 e.natAbs
  let front :=
    match ds with
    | [] => []
    | [d] => [d]
    | d :: rest => d :: '.' :: rest
  front ++ ['e', if e < 0 then '-' else '+'] ++
    List.replicate (format.exponentWidth - digits.length) '0' ++ digits

/-- The spelling of the shortest decimal of a positive finite number. -/
def spellPositive (format : Format) (x : Binary64) : List Char :=
  let (ds, point) := (shortest x).normal
  if format.leastPoint ≤ point ∧ point ≤ format.greatestPoint then positional ds point
  else withExponent format ds point

/-- The spelling of a number. -/
def spell (format : Format) (x : Binary64) : Text :=
  if x.isNaN then "nan"
  else
    let magnitude : Text :=
      if !x.isFinite then "inf"
      else if x.significand = 0 then "0.0"
      else Text.ofChars (spellPositive format x)
    if x.isNegative then "-" ++ magnitude else magnitude

end SubclassIndex.Decimal
