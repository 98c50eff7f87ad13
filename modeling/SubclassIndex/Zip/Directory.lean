import SubclassIndex.Text.Utf8
import SubclassIndex.Zip.Checksum
import SubclassIndex.Zip.CodePage
import SubclassIndex.Zip.EndRecord

/-!
# The directory of an archive

The directory lists the members. A number for which the 32 bits of an entry do not do stands in its
extra field, which consists of blocks of several kinds.
-/

namespace SubclassIndex.Zip

/-- A member as the directory lists it. `fullName` is its name as it is written in the entry; `name`
ends before the first zero code point. `limit` is the offset that its data must not pass. -/
structure Member where
  name : Text
  fullName : Text
  flags : Nat
  method : Nat
  checksum : Nat
  packedSize : Nat
  size : Nat
  offset : Int
  limit : Int

/-- Why some bytes cannot be opened as an archive. -/
inductive ArchiveFault
  /-- They are no archive. -/
  | unreadable
  /-- A name is marked as UTF-8 and is not. -/
  | undecodableName
  /-- A member asks for a later version of the format. -/
  | tooNew
  deriving DecidableEq

/-! ## Names -/

def flag (flags bit : Nat) : Bool := flags.testBit bit

/-- The text of a name; bit 11 of the flags marks UTF-8. -/
def nameText? (flags : Nat) (bytes : Bytes) : Option Text :=
  if flag flags 11 then Utf8.decode? .scalars bytes else some (pageText bytes)

/-- A name up to its first zero code point. -/
def shortName (name : Text) : Text := name.takeWhile fun c => decide (c.val ≠ 0)

/-! ## Extra fields -/

/-- The number of 32 bits that stands for one in the extra field. -/
def wideMark : Nat := 0xFFFFFFFF

/-- A number of an entry, taken from the data of a block if it is only marked there, and the data
that are left. -/
def wideNumber? (isMarked : Bool) (number : Nat) (data : Bytes) : Option (Nat × Bytes) :=
  if !isMarked then some (number, data)
  else if data.length < 8 then none
  else some (field data 0 8, data.drop 8)

namespace Member

/-- The member with the numbers of 64 bits from a block. -/
def withWideNumbers? (m : Member) (data : Bytes) : Option Member := do
  let (size, data) ← wideNumber? (m.size = wideMark ∨ m.size = 0xFFFFFFFFFFFFFFFF) m.size data
  let (packedSize, data) ← wideNumber? (m.packedSize = wideMark) m.packedSize data
  let (offset, _) ← wideNumber? (m.offset = wideMark) m.offset.toNat data
  some { m with size, packedSize, offset }

/-- The member with the name from a block, if that is for the name in the entry, of which the block
has the checksum. -/
def withUnicodeName? (m : Member) (nameBytes data : Bytes) : Option Member :=
  if data.length < 5 then none
  else if field data 0 1 ≠ 1 ∨ field data 1 4 ≠ (Zip.checksum nameBytes).toNat then some m
  else
    match Utf8.decode? .scalars (data.drop 5) with
    | none => none
    | some name => some (if name.isEmpty then m else { m with name := shortName name })

/-- The member with what a block says. -/
def withBlock? [Library] (m : Member) (nameBytes : Bytes) (kind : Nat) (data : Bytes) :
    Option Member :=
  if kind = 0x0001 then m.withWideNumbers? data
  else if kind = 0x7075 ∧ Library.namesInExtra then m.withUnicodeName? nameBytes data
  else some m

/-- The member with what the blocks of its extra field say, if they fill it. Fewer than four bytes
at its end do not count. -/
def withExtra? [Library] (m : Member) (nameBytes extra : Bytes) : Option Member :=
  go extra.length m extra
where
  /-- Every block takes four bytes, which bounds their number. -/
  go : Nat → Member → Bytes → Option Member
    | 0, m, _ => some m
    | bound + 1, m, extra =>
      if extra.length < 4 then some m
      else
        let length := field extra 2 2 + 4
        if extra.length < length then none
        else
          match m.withBlock? nameBytes (field extra 0 2) ((extra.take length).drop 4) with
          | some m => go bound m (extra.drop length)
          | none => none

end Member

/-! ## Entries -/

/-- The length of a directory entry before its name. -/
def entryLength : Nat := 46

def entrySignature : Bytes := [0x50, 0x4B, 0x01, 0x02]

/-- The latest version of the format that a member may ask for, in tenths. -/
def latestVersion : Nat := 63

/-- A directory entry and the number of bytes that it claims to take. `shift` is how much later
than it says everything in the archive begins. -/
def entry [Library] (shift : Int) (bytes : Bytes) : Except ArchiveFault (Member × Nat) :=
  let fixed := bytes.take entryLength
  if fixed.length < entryLength ∨ !entrySignature.isPrefixOf fixed then .error .unreadable
  else
    let nameLength := field fixed 28 2
    let extraLength := field fixed 30 2
    let commentLength := field fixed 32 2
    let flags := field fixed 8 2
    let nameBytes := slice bytes entryLength nameLength
    match nameText? flags nameBytes with
    | none => .error .undecodableName
    | some name =>
      if latestVersion < field fixed 6 1 then .error .tooNew
      else
        let m : Member :=
          { name := shortName name
            fullName := name
            flags
            method := field fixed 10 2
            checksum := field fixed 16 4
            packedSize := field fixed 20 4
            size := field fixed 24 4
            offset := field fixed 42 4
            limit := 0 }
        match m.withExtra? nameBytes (slice bytes (entryLength + nameLength) extraLength) with
        | none => .error .unreadable
        | some m =>
          .ok ({ m with offset := m.offset + shift },
            entryLength + nameLength + extraLength + commentLength)

/-- The entries of a directory: as many as it takes for their claimed lengths to fill it. -/
def entries [Library] (shift : Int) (size : Nat) (directory : Bytes) :
    Except ArchiveFault (List Member) :=
  go size 0 directory []
where
  /-- Every entry takes a byte, which bounds their number; `done` holds them backwards. -/
  go : (bound total : Nat) → Bytes → List Member → Except ArchiveFault (List Member)
    | 0, _, _, done => .ok done.reverse
    | bound + 1, total, bytes, done =>
      if size ≤ total then .ok done.reverse
      else
        match entry shift bytes with
        | .ok (m, length) => go bound (total + length) (bytes.drop length) (m :: done)
        | .error e => .error e

/-! ## Limits -/

/-- Where the data of a member have to end: where the next member begins, or the directory. Of
members that begin together only the first may have data. -/
def limitOf (directory : Int) (before all : List Int) (offset : Int) : Int :=
  if offset ∈ before then offset else ((all.filter (offset < ·)).min?).getD directory

/-- The members with their limits. -/
def withLimits (directory : Int) (members : List Member) : List Member :=
  let offsets := members.map Member.offset
  members.zipIdx.map fun (m, i) =>
    { m with limit := limitOf directory (offsets.take i) offsets m.offset }

end SubclassIndex.Zip
