import SubclassIndex.Text.CodePoint

/-!
# Texts

A text is a list of code points. Texts are ordered by code point, the shorter first where one
begins the other; this is the order of every sorted list of names in this library.
-/

namespace SubclassIndex

/-- A sequence of code points. -/
abbrev Text := List CodePoint

/-- A sequence of octets. -/
abbrev Bytes := List UInt8

namespace Text

/-- The code points of a string. -/
def ofString (s : String) : Text := s.toList.map CodePoint.ofChar

instance : Coe String Text := ⟨ofString⟩

/-- Texts are compared by comparing their code points. -/
instance : LawfulBEq Text := inferInstance

/-- The text of some characters. -/
def ofChars (cs : List Char) : Text := cs.map CodePoint.ofChar

/-- The string of a text that holds no surrogate. -/
def toString? (t : Text) : Option String := (t.mapM CodePoint.toChar?).map String.ofList

/-- A natural number in decimal. -/
def ofNat (n : Nat) : Text := ofChars (Nat.toDigits 10 n)

/-- An integer in decimal, with a minus sign where it is negative. -/
def ofInt : Int → Text
  | .ofNat n => ofNat n
  | .negSucc n => CodePoint.ofChar '-' :: ofNat (n + 1)

/-- A number in base sixteen with small letters and at least the given number of digits. -/
def ofHex (width n : Nat) : Text :=
  let digits := Nat.toDigits 16 n
  ofChars (List.replicate (width - digits.length) '0' ++ digits)

/-- A number in decimal with at least the given number of digits. -/
def ofNatPadded (width n : Nat) : Text :=
  let digits := Nat.toDigits 10 n
  ofChars (List.replicate (width - digits.length) '0' ++ digits)

/-- The texts in ascending order, repetitions kept. -/
def sort (ts : List Text) : List Text := ts.mergeSort fun a b => decide (a ≤ b)

/-- The texts one after another with a separator between neighbours. -/
def join (separator : Text) (ts : List Text) : Text := List.intercalate separator ts

/-- Every occurrence of one code point turned into another. -/
def replacePoint (old new : CodePoint) (t : Text) : Text :=
  t.map fun c => if c = old then new else c

/-- The pieces between the occurrences of a separator; a text without it is one piece. -/
def splitOnPoint (separator : CodePoint) (t : Text) : List Text :=
  go t [] []
where
  /-- `piece` and `done` hold the current piece and the finished ones, both backwards. -/
  go : Text → Text → List Text → List Text
    | [], piece, done => (piece.reverse :: done).reverse
    | c :: rest, piece, done =>
      if c = separator then go rest [] (piece.reverse :: done) else go rest (c :: piece) done

/-- The text without the code points of a class at its end. -/
def dropEndWhile (p : CodePoint → Bool) (t : Text) : Text := (t.reverse.dropWhile p).reverse

/-- The text without the code points of a class at either end. -/
def trim (p : CodePoint → Bool) (t : Text) : Text := dropEndWhile p (t.dropWhile p)

/-- The text without one line feed at its end. -/
def withoutFinalBreak (t : Text) : Text :=
  if t.getLast? = some (CodePoint.ofChar '\n') then t.dropLast else t

/-- ASCII capitals as small letters. -/
def toLowerAscii (t : Text) : Text := t.map CodePoint.toLowerAscii

/-- Carriage returns, alone or before a line feed, as one line feed each. -/
def normalizeNewlines (t : Text) : Text :=
  go false t []
where
  /-- `afterReturn` says that a carriage return was just read; `done` is the result backwards. -/
  go (afterReturn : Bool) : Text → Text → Text
    | [], done => done.reverse
    | c :: rest, done =>
      if c = '\r' then go true rest (CodePoint.ofChar '\n' :: done)
      else if c = '\n' && afterReturn then go false rest done
      else go false rest (c :: done)

end Text

end SubclassIndex
