import SubclassIndex.Zip.Directory
import SubclassIndex.Zip.Inflate

/-!
# Archives

The directory of an archive stands right before its end, whatever offset the end gives, so that
other data may precede the archive. Each member has a header of its own where its data begin, and
the header and the directory must agree on its name. Members may be stored or deflated, or packed in
another way that the library has an unpacker for.
-/

namespace SubclassIndex.Zip

/-- The bytes of an archive and its members in the order of the directory. -/
structure Archive where
  bytes : Bytes
  members : List Member

namespace Archive

/-- Opens some bytes as an archive. -/
def ofBytes [Library] (bytes : Bytes) : Except ArchiveFault Archive :=
  match endRecord? bytes with
  | none => .error .unreadable
  | some r =>
    if r.position < r.directorySize then .error .unreadable
    else
      let start := r.position - r.directorySize
      let directory := slice bytes start r.directorySize
      match entries ((start : Int) - r.directoryOffset) r.directorySize directory with
      | .ok members => .ok ⟨bytes, withLimits start members⟩
      | .error e => .error e

/-- The member of a name; of several the last one. -/
def member? (a : Archive) (name : Text) : Option Member :=
  a.members.reverse.find? fun m => m.name = name

end Archive

/-! ## The content of a member -/

/-- Why the content of a member cannot be had. -/
inductive MemberFault
  /-- Its header or its data are damaged, or packed in a way that is not supported. -/
  | unreadable
  /-- The name in its header is marked as UTF-8 and is not. -/
  | undecodableName
  /-- It would begin before the first byte. -/
  | misplaced
  /-- It would begin at an offset that no file can have. -/
  | outOfRange
  /-- Its unpacker reports an error of the system in these words. -/
  | system (text : Text)
  /-- Its unpacker fails in a way of its own, in these words. -/
  | unpacker (text : Text)
  deriving DecidableEq

/-- What the failure of an unpacker makes of a member. -/
def MemberFault.ofUnpackFault : UnpackFault → MemberFault
  | .damaged => .unreadable
  | .system text => .system text
  | .foreign text => .unpacker text

/-- The length of a member's header before its name. -/
def headerLength : Nat := 30

def headerSignature : Bytes := [0x50, 0x4B, 0x03, 0x04]

/-- Whether a file can be asked for what stands at an offset, in a signed number of 64 bits. -/
def isOffset (offset : Int) : Bool := -0x8000000000000000 ≤ offset && offset < 0x8000000000000000

/-- What some data unpack to by a method. -/
def unpackBy [Library] (method : Nat) (given : Bytes) : Except UnpackFault Unpacked :=
  match method with
  | 0 => .ok ⟨given, false⟩
  | 8 =>
    match inflate given with
    | some u => .ok u
    | none => .error .damaged
  | method => Library.unpack method given

/-- The content of packed data that should unpack to a size. `given` is what there is of them. -/
def unpack [Library] (m : Member) (given : Bytes) : Except UnpackFault Bytes :=
  if given.isEmpty && m.packedSize ≠ 0 then .error .damaged
  else
    match unpackBy m.method given with
    | .error e => .error e
    | .ok u =>
      let content := u.output.take m.size
      if given.length < m.packedSize ∧ !u.complete ∧ content.length < m.size then .error .damaged
      else if (checksum content).toNat = m.checksum then .ok content
      else .error .damaged

/-- The content of a member that begins at an offset, from the bytes of its archive. -/
def contentAt [Library] (bytes : Bytes) (m : Member) (offset : Nat) : Except MemberFault Bytes :=
  let afterStart := bytes.drop offset
  let fixed := afterStart.take headerLength
  if fixed.length < headerLength ∨ !headerSignature.isPrefixOf fixed then .error .unreadable
  else
    let name := slice afterStart headerLength (field fixed 26 2)
    let extra := slice afterStart (headerLength + name.length) (field fixed 28 2)
    let dataStart := headerLength + name.length + extra.length
    if flag m.flags 5 ∨ flag m.flags 6 then .error .unreadable
    else
      match nameText? (field fixed 6 2) name with
      | none => .error .undecodableName
      | some n =>
        if n ≠ m.fullName ∨ m.limit < offset + dataStart + m.packedSize ∨ flag m.flags 0 then
          .error .unreadable
        else
          match unpack m (slice afterStart dataStart m.packedSize) with
          | .ok content => .ok content
          | .error e => .error (.ofUnpackFault e)

/-- The content of a member, from the bytes of its archive. -/
def Archive.content [Library] (a : Archive) (m : Member) : Except MemberFault Bytes :=
  if !isOffset m.offset then .error .outOfRange
  else
    match m.offset with
    | .negSucc _ => .error .misplaced
    | .ofNat offset => contentAt a.bytes m offset

end SubclassIndex.Zip
