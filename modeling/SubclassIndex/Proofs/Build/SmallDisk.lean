import SubclassIndex.Build.Run
import SubclassIndex.ClassFile.Writer

/-!
# Small disks

Disks with a directory `c` of classes and some archives beside it, written from what they hold. They
are small enough for a whole build on them to be evaluated.
-/

namespace SubclassIndex

/-- A number in two bytes, the least significant one first. -/
def bytesOfU16LE (n : Nat) : Bytes := (bytesOfU16 n).reverse

/-- A number in four bytes, the least significant one first. -/
def bytesOfU32LE (n : Nat) : Bytes := bytesOfU16LE (n % 65536) ++ bytesOfU16LE (n / 65536)

/-- A class file with some access flags and a superclass. -/
def ClassFile.childOf (superclass : Text) (flags : Nat) : Bytes :=
  Prelude.encode
    { version := [0, 0, 0, 52]
      constants :=
        (literal? (ModifiedUtf8.encode superclass)).toList.map .utf8 ++ [.classRef 1]
      flags
      self := 2
      super := 2 }

namespace Zip

/-- A member to be stored. The error is added to its checksum, so that it can be read only where
the error is zero. -/
structure StoredMember where
  name : Text
  content : Bytes
  checksumError : Nat := 0

namespace StoredMember

/-- The fields that the header of a member and its directory entry have in common. -/
def fields (m : StoredMember) : Bytes :=
  [20, 0, 0, 0, 0, 0, 0, 0, 0, 0] ++
    bytesOfU32LE ((checksum m.content).toNat + m.checksumError) ++
    bytesOfU32LE m.content.length ++ bytesOfU32LE m.content.length ++
    bytesOfU16LE (m.name.flatMap Utf8.bytesOf).length ++ [0, 0]

/-- The member with its header. -/
def record (m : StoredMember) : Bytes :=
  headerSignature ++ m.fields ++ m.name.flatMap Utf8.bytesOf ++ m.content

/-- The directory entry of a member that begins at an offset. -/
def entry (m : StoredMember) (offset : Nat) : Bytes :=
  entrySignature ++ [20, 0] ++ m.fields ++ List.replicate 10 0 ++ bytesOfU32LE offset ++
    m.name.flatMap Utf8.bytesOf

end StoredMember

/-- The directory of members, of which the first begins at an offset. -/
def directoryOf : (offset : Nat) → List StoredMember → Bytes
  | _, [] => []
  | offset, m :: rest => m.entry offset ++ directoryOf (offset + m.record.length) rest

/-- An archive with some records and a directory of so many entries. -/
def assemble (records directory : Bytes) (count : Nat) : Bytes :=
  records ++ directory ++ endSignature ++ [0, 0, 0, 0] ++ bytesOfU16LE count ++
    bytesOfU16LE count ++ bytesOfU32LE directory.length ++ bytesOfU32LE records.length ++ [0, 0]

/-- An archive of stored members. -/
def pack (members : List StoredMember) : Bytes :=
  assemble (members.flatMap StoredMember.record) (directoryOf 0 members) members.length

end Zip

/-- A disk with classes in the directory `c` and archives beside it. -/
def smallDisk (classes archives : List (Text × Bytes)) : Disk where
  nodes := .ofList ((["c".toUTF8.toList], .directory) ::
    classes.map (fun e => (["c".toUTF8.toList, e.1.flatMap Utf8.bytesOf], .file e.2)) ++
    archives.map fun e => ([e.1.flatMap Utf8.bytesOf], .file e.2))
  current := []

/-- Settings for such a disk, with one archive `x` beside the classes and the index in `i`. -/
def smallSettings : Settings where
  baseClasses := ["a.B"]
  classesDirectory := "c"
  archives := [.text "x"]
  outputPath := "i"

/-- A result of which something has been found by evaluation is there. -/
theorem exists_ok_of_toOption {ε α β : Type} {e : Except ε α} {f : α → β} {b : β}
    (h : e.toOption.map f = some b) : ∃ a, e = .ok a ∧ f a = b := by
  cases e with
  | error e => cases h
  | ok a => exact ⟨a, rfl, Option.some.inj h⟩

end SubclassIndex
