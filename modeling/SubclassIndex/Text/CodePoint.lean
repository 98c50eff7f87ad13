/-!
# Code points

A code point is a number below `0x110000`. Surrogates are code points too: a class file or an
escaped text can hold one that stands alone, so a text is a list of code points and not a `String`.
Code points are ordered by number.
-/

namespace SubclassIndex

/-- A Unicode code point, the surrogates included. -/
structure CodePoint where
  val : Nat
  isLt : val < 0x110000 := by decide
  deriving DecidableEq

namespace CodePoint

@[ext] theorem ext {a b : CodePoint} (h : a.val = b.val) : a = b := by
  cases a; cases b; cases h; rfl

instance : LT CodePoint := ⟨fun a b => a.val < b.val⟩

instance : LE CodePoint := ⟨fun a b => a.val ≤ b.val⟩

instance (a b : CodePoint) : Decidable (a < b) := inferInstanceAs (Decidable (a.val < b.val))

instance (a b : CodePoint) : Decidable (a ≤ b) := inferInstanceAs (Decidable (a.val ≤ b.val))

theorem lt_def {a b : CodePoint} : a < b ↔ a.val < b.val := Iff.rfl

theorem lt_irrefl (a : CodePoint) : ¬a < a := Nat.lt_irrefl _

theorem lt_trans {a b c : CodePoint} (h : a < b) (h' : b < c) : a < c := Nat.lt_trans h h'

theorem lt_asymm {a b : CodePoint} (h : a < b) : ¬b < a := Nat.lt_asymm h

theorem eq_of_not_lt {a b : CodePoint} (h : ¬a < b) (h' : ¬b < a) : a = b :=
  ext (Nat.le_antisymm (Nat.le_of_not_lt h') (Nat.le_of_not_lt h))

/-- The code point of a character. -/
def ofChar (c : Char) : CodePoint :=
  ⟨c.toNat, by
    have h : c.toNat.isValidChar := c.valid
    rcases h with h | ⟨_, h⟩ <;> omega⟩

instance : Coe Char CodePoint := ⟨ofChar⟩

@[simp] theorem val_ofChar (c : Char) : (ofChar c).val = c.toNat := rfl

theorem ofChar_inj {c d : Char} : ofChar c = ofChar d ↔ c = d := by
  refine ⟨fun h => ?_, fun h => h ▸ rfl⟩
  have : c.toNat = d.toNat := congrArg CodePoint.val h
  exact Char.ext (UInt32.toNat_inj.1 this)

/-- The code point with a given number, if there is one. -/
def ofNat? (n : Nat) : Option CodePoint :=
  if h : n < 0x110000 then some ⟨n, h⟩ else none

/-- U+FFFD, written for what cannot be decoded. -/
def replacement : CodePoint := ⟨0xFFFD, by decide⟩

/-- The first halves of surrogate pairs. -/
def isHighSurrogate (c : CodePoint) : Bool := 0xD800 ≤ c.val && c.val < 0xDC00

/-- The second halves of surrogate pairs. -/
def isLowSurrogate (c : CodePoint) : Bool := 0xDC00 ≤ c.val && c.val < 0xE000

/-- The code points that are not Unicode scalar values. -/
def isSurrogate (c : CodePoint) : Bool := 0xD800 ≤ c.val && c.val < 0xE000

/-- The character of a scalar value; a surrogate has none. -/
def toChar? (c : CodePoint) : Option Char :=
  if h : c.val.isValidChar then some (Char.ofNatAux c.val h) else none

/-- Whether the code point lies between two characters, both included. -/
def between (c : CodePoint) (low high : Char) : Bool := low.toNat ≤ c.val && c.val ≤ high.toNat

/-- One of the ten ASCII digits. -/
def isDigit (c : CodePoint) : Bool := c.between '0' '9'

/-- One of the digits of base sixteen, in either case. -/
def isHexDigit (c : CodePoint) : Bool :=
  c.isDigit || c.between 'a' 'f' || c.between 'A' 'F'

/-- An ASCII letter, an ASCII digit, a hyphen or an underscore. -/
def isWordPoint (c : CodePoint) : Bool :=
  c.isDigit || c.between 'a' 'z' || c.between 'A' 'Z' || c = '-' || c = '_'

/-- An ASCII capital as a small letter; every other code point as it is. -/
def toLowerAscii (c : CodePoint) : CodePoint :=
  if h : c.between 'A' 'Z' then
    ⟨c.val + 32, by simp [between] at h; omega⟩
  else c

end CodePoint

end SubclassIndex
