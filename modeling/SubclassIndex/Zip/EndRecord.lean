import SubclassIndex.ClassFile.Cursor
import SubclassIndex.Zip.Library

/-!
# The end of an archive

An archive ends with a record that says how long its directory is and where it begins. If numbers of
32 bits do not do, a record of 64 bits stands before that one, and between the two a locator. A
library may take the record to end where the locator begins, or go by the offset in the locator and
check that all of them fit together.
-/

namespace SubclassIndex.Zip

/-- The number in some bytes of a record, the least significant byte first. -/
def field (record : Bytes) (start width : Nat) : Nat :=
  littleEndian ((record.drop start).take width)

/-- The bytes of some length from an offset on. -/
def slice (bytes : Bytes) (start length : Nat) : Bytes := (bytes.drop start).take length

def endLength : Nat := 22

def endSignature : Bytes := [0x50, 0x4B, 0x05, 0x06]

/-- What the end of an archive says of the directory. `position` is where the directory ends. -/
structure EndRecord where
  position : Nat
  directorySize : Nat
  directoryOffset : Nat

/-! ## The record of 32 bits -/

/-- The last place in some bytes where a pattern begins. -/
def lastIndexOf? (pattern bytes : Bytes) : Option Nat :=
  go bytes 0 none
where
  /-- `found` is the last place so far. -/
  go : Bytes → Nat → Option Nat → Option Nat
    | [], _, found => found
    | b :: rest, index, found =>
      go rest (index + 1) (if pattern.isPrefixOf (b :: rest) then some index else found)

/-- The farthest from the end that the record is looked for: a comment may follow it. -/
def endSearchLength : Nat := 65536 + endLength

/-- The place of the record at the end: the very end if it has no comment there, else the last
place near the end that looks like one. -/
def endPosition? (bytes : Bytes) : Option Nat :=
  let size := bytes.length
  if size < endLength then none
  else
    let last := bytes.drop (size - endLength)
    if endSignature.isPrefixOf last && last.drop (endLength - 2) == [0, 0] then
      some (size - endLength)
    else
      let skipped := size - endSearchLength
      (lastIndexOf? endSignature (bytes.drop skipped)).map (skipped + ·)

/-! ## The record of 64 bits -/

def locatorLength : Nat := 20

def locatorSignature : Bytes := [0x50, 0x4B, 0x06, 0x07]

def wideEndLength : Nat := 56

def wideEndSignature : Bytes := [0x50, 0x4B, 0x06, 0x06]

def wideEndAt (bytes : Bytes) (start : Nat) : EndRecord :=
  let record := slice bytes start wideEndLength
  ⟨start, field record 40 8, field record 48 8⟩

def hasWideEndAt (bytes : Bytes) (start : Nat) : Bool :=
  wideEndSignature.isPrefixOf (bytes.drop start)

/-- The record that fits a locator which gives it the offset `claimed`. Its `usual` offset is right
before the locator. -/
def fittingEnd? (bytes : Bytes) (claimed usual : Nat) : Option EndRecord :=
  -- where other data precede the archive, the record is later than claimed
  let start := if hasWideEndAt bytes claimed then claimed else usual
  let r := wideEndAt bytes start
  if usual < claimed ∨ !hasWideEndAt bytes start ∨
      r.directoryOffset + r.directorySize ≠ claimed ∨
      field (slice bytes start wideEndLength) 4 8 + 12 ≠ wideEndLength + (usual - start) then none
  else some r

/-- What the record of 64 bits says if there is one before the given record, and else what the given
record says. -/
def widened? [Library] (bytes : Bytes) (r : EndRecord) : Option EndRecord :=
  let locator := slice bytes (r.position - locatorLength) locatorLength
  let usual := r.position - locatorLength - wideEndLength
  if r.position < locatorLength ∨ !locatorSignature.isPrefixOf locator then some r
  -- an archive may not be spread over several files
  else if field locator 4 4 ≠ 0 ∨ 1 < field locator 16 4 ∨
      r.position < locatorLength + wideEndLength then none
  else if Library.endChecked then fittingEnd? bytes (field locator 8 8) usual
  else if hasWideEndAt bytes usual then some (wideEndAt bytes usual)
  else some r

/-- The record at the end. -/
def endRecord? [Library] (bytes : Bytes) : Option EndRecord :=
  match endPosition? bytes with
  | none => none
  | some position =>
    let record := slice bytes position endLength
    if record.length < endLength then none
    else widened? bytes ⟨position, field record 12 4, field record 16 4⟩

end SubclassIndex.Zip
