import SubclassIndex.Text.Utf8

/-!
# Names on a disk

A disk knows names as bytes. A text names the bytes of its UTF-8 form, and the low surrogates
U+DC80 to U+DCFF stand for the bytes 80 to FF, so that every name, UTF-8 or not, has a text.
-/

namespace SubclassIndex

/-- A name on a disk. -/
abbrev DiskName := Bytes

namespace DiskName

/-- The bytes of a code point in a name; other surrogates cannot occur in one. -/
def bytesOf? (c : CodePoint) : Option Bytes :=
  if 0xDC80 ≤ c.val ∧ c.val ≤ 0xDCFF then some [(c.val - 0xDC00).toUInt8]
  else if c.isSurrogate then none
  else some (Utf8.bytesOf c)

/-- The name that a text spells. -/
def ofText? (t : Text) : Option DiskName := (t.mapM bytesOf?).map List.flatten

/-- The low surrogate that stands for a byte. -/
def escaped (b : UInt8) : CodePoint := ⟨0xDC00 + b.toNat, by have := b.toNat_lt; omega⟩

/-- The code point at the beginning of some bytes and the number of its bytes. -/
def firstPoint? (bytes : Bytes) : Option (CodePoint × Nat) :=
  [1, 2, 3, 4].findSome? fun width =>
    match Utf8.decode? .scalars (bytes.take width) with
    | some [c] => some (c, width)
    | _ => none

/-- The text of a name. -/
def toText (name : DiskName) : Text :=
  go 0 name
where
  /-- `skip` says how many bytes belong to a code point that has been read. -/
  go : Nat → Bytes → Text
    | _, [] => []
    | skip + 1, _ :: rest => go skip rest
    | 0, b :: rest =>
      match firstPoint? (b :: rest) with
      | some (c, width) => c :: go (width - 1) rest
      | none => escaped b :: go 0 rest

/-- The most bytes that a name may have. -/
def maxLength : Nat := 255

end DiskName

end SubclassIndex
