import SubclassIndex.Decimal.Binary64
import SubclassIndex.Text.Basic

/-!
# Shortest decimals

A floating-point number is written with the fewest digits from which it can be read back, and of
the decimals of that length with the one nearest to it. It is read back from every decimal between
the two points halfway to its neighbours, and from these themselves if its significand is even.
-/

namespace SubclassIndex.Decimal

/-- A natural number times a power of ten. -/
structure Scientific where
  digits : Nat
  exponent : Int

/-- A number and the bounds of the interval that is rounded to it, over one denominator. -/
structure Interval where
  value : Nat
  low : Nat
  high : Nat
  denominator : Nat
  closed : Bool

/-- The interval of a positive finite number. Below a power of two the neighbour is half as far. -/
def intervalOf (x : Binary64) : Interval :=
  let m := x.significand
  let lowGap := if x.fractionField = 0 ∧ 1 < x.exponentField then 1 else 2
  let scaled := fun n => Binary64.scaled n 1 (x.exponent - 2)
  ⟨(scaled (4 * m)).1, (scaled (4 * m - lowGap)).1, (scaled (4 * m + 2)).1, (scaled (4 * m)).2,
    m % 2 = 0⟩

/-- Whether a decimal lies in an interval. -/
def Interval.contains (i : Interval) (c : Nat) (e : Int) : Bool :=
  let (n, d) : Nat × Nat :=
    match e with
    | .ofNat k => (c * Nat.pow 10 k * i.denominator, 1)
    | .negSucc k => (c * i.denominator, Nat.pow 10 (k + 1))
  if i.closed then decide (i.low * d ≤ n) && decide (n ≤ i.high * d)
  else decide (i.low * d < n) && decide (n < i.high * d)

/-- The power of ten just above a value: the least exponent that is not below it, counted from the
first digit. -/
def magnitude (i : Interval) : Int :=
  if i.denominator ≤ i.value then (Nat.toDigits 10 (i.value / i.denominator)).length
  else
    let reaches := fun j => decide (i.denominator ≤ i.value * Nat.pow 10 (j + 1))
    let zeros := ((List.range 400).find? reaches).getD 0
    (0 : Int) - zeros

/-- The best decimal with a number of digits: of the two next to the value those in the interval,
and of two the nearer. -/
def best? (i : Interval) (count : Nat) : Option Scientific :=
  let e := magnitude i - count
  let (n, d) : Nat × Nat :=
    match e with
    | .ofNat k => (i.value, i.denominator * Nat.pow 10 k)
    | .negSucc k => (i.value * Nat.pow 10 (k + 1), i.denominator)
  let below := n / d
  let twice := 2 * (n % d)
  match i.contains below e, i.contains (below + 1) e with
  | true, true =>
    if twice < d ∨ (twice = d ∧ below % 2 = 0) then some ⟨below, e⟩ else some ⟨below + 1, e⟩
  | true, false => some ⟨below, e⟩
  | false, true => some ⟨below + 1, e⟩
  | false, false => none

/-- The most digits that are ever needed. -/
def mostDigits : Nat := 17

/-- The shortest decimal of a positive finite number. -/
def shortest (x : Binary64) : Scientific :=
  let i := intervalOf x
  ((List.range mostDigits).findSome? fun n => best? i (n + 1)).getD ⟨0, 0⟩

/-- The digits of a decimal without the zeros at its end, and how many of them stand before the
point. -/
def Scientific.normal (s : Scientific) : List Char × Int :=
  let all := Nat.toDigits 10 s.digits
  let kept := (all.reverse.dropWhile fun c => c = '0').reverse
  (kept, all.length + s.exponent)

end SubclassIndex.Decimal
