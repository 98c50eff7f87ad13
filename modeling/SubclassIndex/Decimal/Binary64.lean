/-!
# Binary floating point

A number of 64 bits: a sign, an exponent and a fraction. A finite one is a natural number times a
power of two, with its sign. A ratio is rounded to the nearest such number, and to the one with an
even fraction where two are equally near.
-/

namespace SubclassIndex

/-- A floating-point number by its bits. -/
structure Binary64 where
  bits : UInt64
  deriving DecidableEq

namespace Binary64

/-- The bits of the fraction. -/
def fractionBits : Nat := 52

/-- How many fractions there are. -/
def fractionCount : Nat := 1 <<< fractionBits

/-- The exponent of a fraction that is not normalised. -/
def leastExponent : Int := -1074

/-- The field that marks infinities and what is no number. -/
def specialField : Nat := 0x7FF

/-- Whether the sign bit is set. -/
def isNegative (x : Binary64) : Bool := x.bits.toNat.testBit 63

/-- The field of the exponent. -/
def exponentField (x : Binary64) : Nat := x.bits.toNat / fractionCount % (specialField + 1)

/-- The field of the fraction. -/
def fractionField (x : Binary64) : Nat := x.bits.toNat % fractionCount

/-- Whether the number is neither infinite nor no number at all. -/
def isFinite (x : Binary64) : Bool := x.exponentField ≠ specialField

/-- Whether this is no number at all. -/
def isNaN (x : Binary64) : Bool := !x.isFinite && x.fractionField ≠ 0

/-- The natural number that is multiplied by a power of two. -/
def significand (x : Binary64) : Nat :=
  if x.exponentField = 0 then x.fractionField else x.fractionField + fractionCount

/-- The exponent of that power. -/
def exponent (x : Binary64) : Int :=
  if x.exponentField = 0 then leastExponent else leastExponent + (x.exponentField - 1 : Nat)

/-- The number with a sign and fields. -/
def ofFields (negative : Bool) (exponent fraction : Nat) : Binary64 :=
  ⟨((negative.toNat * (specialField + 1) + exponent) * fractionCount + fraction).toUInt64⟩

/-- Infinity. -/
def infinity (negative : Bool) : Binary64 := ofFields negative specialField 0

/-- What stands for no number. -/
def nan : Binary64 := ofFields false specialField (fractionCount / 2)

/-- The number of binary digits. -/
def binaryLength (n : Nat) : Nat := if n = 0 then 0 else n.log2 + 1

/-- A ratio times a power of two as a fraction of natural numbers. -/
def scaled (num den : Nat) (power : Int) : Nat × Nat :=
  match power with
  | .ofNat n => (num <<< n, den)
  | .negSucc n => (num, den <<< (n + 1))

/-- A quotient rounded to the nearest natural number, a half to the even one. -/
def roundDiv (num den : Nat) : Nat :=
  let q := num / den
  let twice := 2 * (num % den)
  if den < twice ∨ (twice = den ∧ q % 2 = 1) then q + 1 else q

/-- The number nearest to a ratio. -/
def ofRatio (negative : Bool) (num den : Nat) : Binary64 :=
  if num = 0 then ofFields negative 0 0
  else
    let guess := (binaryLength num : Int) - binaryLength den - fractionBits
    let floor := fun e : Int => let (n, d) := scaled num den (-e); n / d
    let tight := if floor guess < fractionCount then guess - 1 else guess
    let e := max tight leastExponent
    let (n, d) := scaled num den (-e)
    let m := roundDiv n d
    let (m, e) := if 2 * fractionCount ≤ m then (m / 2, e + 1) else (m, e)
    if m < fractionCount then ofFields negative 0 m
    else
      let field := (e - leastExponent).toNat + 1
      if specialField ≤ field then infinity negative
      else ofFields negative field (m - fractionCount)

/-- The bounds outside which a decimal exponent leads to infinity or to zero. -/
def decimalBound : Int := 400

/-- The number of decimal digits, or almost: a binary digit counts as the logarithm of two. -/
def decimalLength (n : Nat) : Nat := binaryLength n * 30103 / 100000

/-- The number nearest to a natural number times a power of ten. -/
def ofDecimal (negative : Bool) (m : Nat) (e : Int) : Binary64 :=
  let magnitude := decimalLength m + e
  if m = 0 ∨ magnitude < -decimalBound then ofFields negative 0 0
  else if decimalBound < magnitude then infinity negative
  else
    match e with
    | .ofNat n => ofRatio negative (m * Nat.pow 10 n) 1
    | .negSucc n => ofRatio negative m (Nat.pow 10 (n + 1))

/-- The number nearest to an integer. -/
def ofInt (n : Int) : Binary64 := ofRatio (decide (n < 0)) n.natAbs 1

/-- The rounded sum. -/
def add (x y : Binary64) : Binary64 := ⟨(Float.ofBits x.bits + Float.ofBits y.bits).toBits⟩

/-- The rounded product. -/
def mul (x y : Binary64) : Binary64 := ⟨(Float.ofBits x.bits * Float.ofBits y.bits).toBits⟩

/-- The number with the other sign. -/
def neg (x : Binary64) : Binary64 := ⟨x.bits ^^^ 0x8000000000000000⟩

/-- The integer that the number is, if it is one. -/
def toInt? (x : Binary64) : Option Int :=
  if !x.isFinite then none
  else
    let (n, d) := scaled x.significand 1 x.exponent
    if n % d ≠ 0 then none else some (if x.isNegative then -(n / d : Nat) else (n / d : Nat))

end Binary64

end SubclassIndex
